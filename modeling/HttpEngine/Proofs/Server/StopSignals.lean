import HttpEngine.Server.Signals
import Mathlib.Data.List.Induction
/-!
# No stop is lost and none is made up

The actions that were taken, with their replies, make up a **log**, and the log alone says to which
family a handle or a signal belongs (`Signals.HandleOf`, `Signals.SignalOf`) and whether a handle of
a family has been stopped (`Signals.Stopped`). A signal is found to have fired just if its family
has been stopped by then, whatever has been done with the handles and signals in between
(`Signals.faithful`).

The version that a signal has seen is compared with that of its family only by a wait that looked at
the flag and did not find it set. So a sleeping signal has seen version zero, and any other version
has come with a stop; and a wait that is lost found no handle of its family, so nobody is left who
could stop it (`Signals.Sound`).
-/

namespace HttpEngine

namespace Signals

variable {s s' : Signals} {a : Action} {reply : Reply} {f g h i n : Nat}

/-! ### What an action does -/

/-- What can come of an action: each reply that makes or does something, with its effect, and the
replies that leave everything. -/
inductive Change (s : Signals) : Action → Reply → Signals → Prop
  | newHandle : Change s .newHandle (.made s.handles.length) s.addFamily
  | copyHandle {h f : Nat} (hlive : s.family? h = some f) :
    Change s (.copyHandle h) (.made s.handles.length) (s.addHandle f)
  | stop {h f : Nat} (hlive : s.family? h = some f) : Change s (.stop h) .done (s.stop f)
  | release {h f : Nat} (hlive : s.family? h = some f) : Change s (.release h) .done (s.release h)
  | signal {h f : Nat} (hlive : s.family? h = some f) :
    Change s (.signal h) (.made s.signals.length) (s.addSignal (s.subscribe f))
  | orphan : Change s .orphan (.made s.signals.length) s.addOrphan
  | copySignal {i : Nat} {signal : Signal} (hsignal : s.signals[i]? = some signal) :
    Change s (.copySignal i) (.made s.signals.length) (s.addSignal { signal with wait := .idle })
  | poll {i : Nat} {signal : Signal} (hsignal : s.signals[i]? = some signal) :
    Change s (.poll i) (.told (s.poll signal).1) (s.setSignal i (s.poll signal).2)
  | abandon {i : Nat} {signal : Signal} (hsignal : s.signals[i]? = some signal) :
    Change s (.abandon i) .done (s.setSignal i { signal with wait := .idle })
  | told {a : Action} {answer : Bool} : Change s a (.told answer) s
  | released {a : Action} : Change s a .released s

/-- What is done with the family of a handle is done to a handle that is left, or not at all. -/
theorem change_withHandle {act : Nat → Reply × Signals}
    (hact : ∀ f, s.family? h = some f → Change s a (act f).1 (act f).2) :
    Change s a (s.withHandle h act).1 (s.withHandle h act).2 := by
  rw [withHandle]
  split
  · next f hlive => exact hact f hlive
  · exact .released

theorem change_act (s : Signals) (a : Action) : Change s a (s.act a).1 (s.act a).2 := by
  cases a with
  | newHandle => exact .newHandle
  | copyHandle h => exact change_withHandle fun _ hlive => .copyHandle hlive
  | stop h => exact change_withHandle fun _ hlive => .stop hlive
  | release h => exact change_withHandle fun _ hlive => .release hlive
  | isStopped h => exact change_withHandle fun _ _ => .told
  | isListening h => exact change_withHandle fun _ _ => .told
  | signal h => exact change_withHandle fun _ hlive => .signal hlive
  | orphan => exact .orphan
  | copySignal i =>
    rw [act]
    split
    · next hsignal => exact .copySignal hsignal
    · exact .released
  | poll i =>
    rw [act]
    split
    · next hsignal => exact .poll hsignal
    · exact .told
  | abandon i =>
    rw [act]
    split
    · next hsignal => exact .abandon hsignal
    · exact .released

/-! ### Handles and families -/

@[simp] theorem length_families_addFamily : s.addFamily.families.length = s.families.length + 1 :=
  List.length_append
@[simp] theorem length_families_addOrphan : s.addOrphan.families.length = s.families.length + 1 :=
  List.length_append
@[simp] theorem length_families_stop : (s.stop f).families.length = s.families.length :=
  List.length_modify _ _ _
@[simp] theorem families_addHandle : (s.addHandle f).families = s.families := rfl
@[simp] theorem families_release : (s.release h).families = s.families := rfl
@[simp] theorem families_addSignal {signal : Signal} :
    (s.addSignal signal).families = s.families := rfl
@[simp] theorem families_setSignal {signal : Signal} :
    (s.setSignal i signal).families = s.families := rfl

@[simp] theorem length_handles_addFamily : s.addFamily.handles.length = s.handles.length + 1 :=
  List.length_append
@[simp] theorem length_handles_addHandle : (s.addHandle f).handles.length = s.handles.length + 1 :=
  List.length_append
@[simp] theorem length_handles_release : (s.release h).handles.length = s.handles.length :=
  List.length_set
@[simp] theorem handles_stop : (s.stop f).handles = s.handles := rfl
@[simp] theorem handles_addOrphan : s.addOrphan.handles = s.handles := rfl
@[simp] theorem handles_addSignal {signal : Signal} :
    (s.addSignal signal).handles = s.handles := rfl
@[simp] theorem handles_setSignal {signal : Signal} :
    (s.setSignal i signal).handles = s.handles := rfl

theorem getElem?_concat {α : Type} (xs : List α) (x : α) (i : Nat) :
    (xs ++ [x])[i]? = if i = xs.length then some x else xs[i]? := by
  split_ifs with hi
  · rw [hi, List.getElem?_concat_length]
  · rcases Nat.lt_or_gt_of_ne hi with hlt | hgt
    · exact List.getElem?_append_left hlt
    · have hlength : (xs ++ [x]).length ≤ i := by
        rw [List.length_append]
        exact hgt
      rw [List.getElem?_eq_none hlength, List.getElem?_eq_none (Nat.le_of_lt hgt)]

theorem family?_concat (s : Signals) (f h : Nat) :
    ((s.handles ++ [some f])[h]?).join =
      if h = s.handles.length then some f else s.family? h := by
  rw [getElem?_concat, apply_ite Option.join]
  rfl

@[simp] theorem family?_addFamily :
    s.addFamily.family? h = if h = s.handles.length then some s.families.length else s.family? h :=
  s.family?_concat s.families.length h

@[simp] theorem family?_addHandle :
    (s.addHandle f).family? h = if h = s.handles.length then some f else s.family? h :=
  s.family?_concat f h

@[simp] theorem family?_release :
    (s.release g).family? h = if h = g then none else s.family? h := by
  rw [family?, release, List.getElem?_set]
  by_cases hg : g = h
  · rw [if_pos hg, if_pos hg.symm]
    split_ifs <;> rfl
  · rw [if_neg hg, if_neg (Ne.symm hg), family?]

@[simp] theorem family?_stop : (s.stop f).family? h = s.family? h := rfl
@[simp] theorem family?_addSignal {signal : Signal} :
    (s.addSignal signal).family? h = s.family? h := rfl
@[simp] theorem family?_addOrphan : s.addOrphan.family? h = s.family? h := rfl
@[simp] theorem family?_setSignal {signal : Signal} :
    (s.setSignal i signal).family? h = s.family? h := rfl

theorem lt_of_family? (hlive : s.family? h = some f) : h < s.handles.length := by
  by_contra hge
  rw [family?, List.getElem?_eq_none (by omega)] at hlive
  exact Option.some_ne_none f hlive.symm

theorem held_iff : s.held f = true ↔ ∃ h, s.family? h = some f := by
  rw [held, List.contains_iff_mem, List.mem_iff_getElem?]
  exact exists_congr fun h => Option.join_eq_some_iff.symm

/-- A family that there was none of is one that nothing has happened to. -/
theorem family_of_length_le (hf : s.families.length ≤ f) : s.family f = {} := by
  rw [family, List.getD_eq_getElem?_getD, List.getElem?_eq_none hf, Option.getD_none]

theorem family_concat (s : Signals) (f : Nat) :
    (s.families ++ [({} : Family)]).getD f {} = s.family f := by
  rw [List.getD_eq_getElem?_getD, getElem?_concat]
  split_ifs with hf
  · rw [family_of_length_le (Nat.le_of_eq hf.symm), Option.getD_some]
  · rw [family, List.getD_eq_getElem?_getD]

@[simp] theorem family_addFamily : s.addFamily.family f = s.family f := s.family_concat f
@[simp] theorem family_addOrphan : s.addOrphan.family f = s.family f := s.family_concat f
@[simp] theorem family_addHandle : (s.addHandle g).family f = s.family f := rfl
@[simp] theorem family_release : (s.release h).family f = s.family f := rfl
@[simp] theorem family_addSignal {signal : Signal} :
    (s.addSignal signal).family f = s.family f := rfl
@[simp] theorem family_setSignal {signal : Signal} :
    (s.setSignal i signal).family f = s.family f := rfl

theorem family_stop (hg : g < s.families.length) :
    (s.stop g).family f =
      if f = g then { s.family f with stopped := true, version := (s.family f).version + 1 }
      else s.family f := by
  rw [family, stop, modify, List.getD_eq_getElem?_getD, List.getElem?_modify, family,
    List.getD_eq_getElem?_getD]
  split_ifs with hgf hfg hfg
  · rw [hfg, List.getElem?_eq_getElem hg]
    rfl
  · exact absurd hgf.symm hfg
  · exact absurd hfg.symm hgf
  · rw [id_map']

/-- The number of the family of a signal. -/
def signalFamily? (s : Signals) (signal : Nat) : Option Nat :=
  (s.signals[signal]?).map (·.family)

theorem signalFamily?_concat (s : Signals) (signal : Signal) (i : Nat) :
    ((s.signals ++ [signal])[i]?).map (·.family) =
      if i = s.signals.length then some signal.family else s.signalFamily? i := by
  rw [getElem?_concat, apply_ite (Option.map _)]
  rfl

@[simp] theorem signalFamily?_addSignal {signal : Signal} :
    (s.addSignal signal).signalFamily? i =
      if i = s.signals.length then some signal.family else s.signalFamily? i :=
  s.signalFamily?_concat signal i

@[simp] theorem signalFamily?_addOrphan :
    s.addOrphan.signalFamily? i =
      if i = s.signals.length then some s.families.length else s.signalFamily? i :=
  s.signalFamily?_concat _ i

theorem signalFamily?_setSignal {signal signal' : Signal} (hfound : s.signals[n]? = some signal)
    (hsame : signal'.family = signal.family) :
    (s.setSignal n signal').signalFamily? i = s.signalFamily? i := by
  rw [signalFamily?, setSignal, List.getElem?_set, signalFamily?]
  split_ifs with hni hlt
  · rw [← hni, hfound, Option.map_some, Option.map_some, hsame]
  · rw [← hni, List.getElem?_eq_none (Nat.le_of_not_lt hlt)]
  · rfl

@[simp] theorem signalFamily?_addFamily : s.addFamily.signalFamily? i = s.signalFamily? i := rfl
@[simp] theorem signalFamily?_addHandle : (s.addHandle f).signalFamily? i = s.signalFamily? i := rfl
@[simp] theorem signalFamily?_stop : (s.stop f).signalFamily? i = s.signalFamily? i := rfl
@[simp] theorem signalFamily?_release : (s.release h).signalFamily? i = s.signalFamily? i := rfl

/-! ### Waits -/

/-- A family is **lost** when none of its handles is left and none was stopped. -/
structure Lost (s : Signals) (f : Nat) : Prop where
  family?_ne : ∀ h, s.family? h ≠ some f
  not_stopped : (s.family f).stopped = false

/-- What is true of every signal. -/
structure SoundSignal (s : Signals) (signal : Signal) : Prop where
  family_lt : signal.family < s.families.length
  seen_eq : signal.wait ≠ .idle → signal.seen = 0
  lost : signal.wait = .lost → s.Lost signal.family

/-- What is true at every time. -/
structure Sound (s : Signals) : Prop where
  family_lt : ∀ h f, s.family? h = some f → f < s.families.length
  version_eq_zero_iff : ∀ f, (s.family f).version = 0 ↔ (s.family f).stopped = false
  signals : ∀ signal ∈ s.signals, s.SoundSignal signal

theorem Change.length_families_le (h : Change s a reply s') :
    s.families.length ≤ s'.families.length := by
  cases h <;> simp

theorem Change.length_handles_le (h : Change s a reply s') :
    s.handles.length ≤ s'.handles.length := by
  cases h <;> simp

/-- Nobody can stop a family that is lost. -/
theorem Lost.change (h : s.Lost f) (hs : s.Sound) (hf : f < s.families.length)
    (hchange : Change s a reply s') : s'.Lost f := by
  have hne : ∀ {g k}, s.family? k = some g → g ≠ f := fun hlive heq =>
    h.family?_ne _ (heq ▸ hlive)
  constructor
  · intro k
    cases hchange with
    | newHandle =>
      rw [family?_addFamily]
      split_ifs
      · simpa using Nat.ne_of_gt hf
      · exact h.family?_ne k
    | copyHandle hlive =>
      rw [family?_addHandle]
      split_ifs
      · simpa using hne hlive
      · exact h.family?_ne k
    | release hlive =>
      rw [family?_release]
      split_ifs
      · simp
      · exact h.family?_ne k
    | _ => exact h.family?_ne k
  · cases hchange with
    | newHandle => simp [h.not_stopped]
    | orphan => simp [h.not_stopped]
    | stop hlive => simp [family_stop (hs.family_lt _ _ hlive), (hne hlive).symm, h.not_stopped]
    | _ => exact h.not_stopped

/-- A family without handles is lost unless it has been stopped. -/
theorem lost_of_not_held (hheld : s.held f = false) (hstopped : (s.family f).stopped = false) :
    s.Lost f where
  family?_ne h hlive := by
    rw [held_iff.2 ⟨h, hlive⟩] at hheld
    exact Bool.noConfusion hheld
  not_stopped := hstopped

theorem soundSignal_of_idle {signal : Signal} (hlt : signal.family < s.families.length)
    (hidle : signal.wait = .idle) : s.SoundSignal signal :=
  ⟨hlt, fun hwait => absurd hidle hwait, fun hwait => by simp [hidle] at hwait⟩

theorem SoundSignal.sleep {signal : Signal} (hlt : signal.family < s.families.length)
    (hseen : signal.seen = 0) (hstopped : (s.family signal.family).stopped = false) :
    s.SoundSignal (s.sleep signal) where
  family_lt := hlt
  seen_eq _ := hseen
  lost hwait := by
    cases hheld : s.held signal.family with
    | false => exact lost_of_not_held hheld hstopped
    | true => simp [Signals.sleep, hheld] at hwait

theorem family_poll (s : Signals) (signal : Signal) : (s.poll signal).2.family = signal.family := by
  have hlook : (s.look signal).2.family = signal.family := by
    rw [look]
    split_ifs <;> rfl
  rw [poll]
  split
  · exact hlook
  · split_ifs
    · rfl
    · exact hlook
  · rfl

/-- **Looking.** A look at the flag tells it, and a signal that goes to sleep then has seen version
zero. -/
theorem Sound.look (hs : s.Sound) {signal : Signal} (hlt : signal.family < s.families.length) :
    (s.look signal).1 = (s.family signal.family).stopped ∧ s.SoundSignal (s.look signal).2 := by
  rw [Signals.look]
  cases hstopped : (s.family signal.family).stopped with
  | true => exact ⟨rfl, soundSignal_of_idle hlt rfl⟩
  | false => exact ⟨rfl, .sleep hlt ((hs.version_eq_zero_iff _).2 hstopped) hstopped⟩

/-- **Waiting.** However far a wait has come, to take it up again tells the flag. -/
theorem Sound.poll (hs : s.Sound) {signal : Signal} (h : s.SoundSignal signal) :
    (s.poll signal).1 = (s.family signal.family).stopped ∧ s.SoundSignal (s.poll signal).2 := by
  rw [Signals.poll]
  split
  · exact hs.look h.family_lt
  · next hwait =>
    have hseen := h.seen_eq (by simp [hwait])
    split_ifs with hsame
    · -- nothing has been set since the look that put the signal to sleep
      have hstopped := (hs.version_eq_zero_iff _).1 (hsame ▸ hseen)
      exact ⟨hstopped.symm, .sleep h.family_lt hseen hstopped⟩
    · exact hs.look h.family_lt
  · next hwait => exact ⟨(h.lost hwait).not_stopped.symm, h⟩

theorem SoundSignal.change {signal : Signal} (h : s.SoundSignal signal) (hs : s.Sound)
    (hchange : Change s a reply s') : s'.SoundSignal signal :=
  ⟨Nat.lt_of_lt_of_le h.family_lt hchange.length_families_le, h.seen_eq, fun hwait =>
    (h.lost hwait).change hs h.family_lt hchange⟩

theorem sound_empty : Sound {} := ⟨by simp [family?], by simp [family], by simp⟩

theorem Sound.family_lt_change (hs : s.Sound) (hchange : Change s a reply s')
    (hlive : s'.family? h = some f) : f < s'.families.length := by
  have hold : s.family? h = some f → f < s'.families.length := fun hlive =>
    Nat.lt_of_lt_of_le (hs.family_lt h f hlive) hchange.length_families_le
  cases hchange with
  | newHandle =>
    rw [family?_addFamily] at hlive
    split_ifs at hlive
    · obtain rfl := Option.some.inj hlive
      simp
    · exact hold hlive
  | copyHandle hcopied =>
    rw [family?_addHandle] at hlive
    split_ifs at hlive
    · obtain rfl := Option.some.inj hlive
      exact hs.family_lt _ _ hcopied
    · exact hold hlive
  | release =>
    rw [family?_release] at hlive
    split_ifs at hlive
    exact hold hlive
  | _ => exact hold hlive

/-- **One action** keeps everything sound. -/
theorem Sound.change (hs : s.Sound) (hchange : Change s a reply s') : s'.Sound where
  family_lt h f hlive := hs.family_lt_change hchange hlive
  version_eq_zero_iff f := by
    cases hchange with
    | newHandle => simp [hs.version_eq_zero_iff]
    | orphan => simp [hs.version_eq_zero_iff]
    | stop hlive =>
      rw [family_stop (hs.family_lt _ _ hlive)]
      split_ifs
      · simp
      · exact hs.version_eq_zero_iff f
    | _ => exact hs.version_eq_zero_iff f
  signals signal hmem := by
    have hold : ∀ {signal}, signal ∈ s.signals → s'.SoundSignal signal := fun hmem =>
      (hs.signals _ hmem).change hs hchange
    cases hchange with
    | signal hlive =>
      rcases List.mem_append.1 hmem with hmem | hmem
      · exact hold hmem
      · obtain rfl := List.mem_singleton.1 hmem
        exact soundSignal_of_idle (hs.family_lt _ _ hlive) rfl
    | orphan =>
      rcases List.mem_append.1 hmem with hmem | hmem
      · exact hold hmem
      · obtain rfl := List.mem_singleton.1 hmem
        exact soundSignal_of_idle (by simp) rfl
    | copySignal hfound =>
      rcases List.mem_append.1 hmem with hmem | hmem
      · exact hold hmem
      · obtain rfl := List.mem_singleton.1 hmem
        exact soundSignal_of_idle (hs.signals _ (List.mem_of_getElem? hfound)).family_lt rfl
    | poll hfound =>
      rcases List.mem_or_eq_of_mem_set hmem with hmem | rfl
      · exact hold hmem
      · have hpolled := (hs.poll (hs.signals _ (List.mem_of_getElem? hfound))).2
        exact hpolled.change hs (.poll hfound)
    | abandon hfound =>
      rcases List.mem_or_eq_of_mem_set hmem with hmem | rfl
      · exact hold hmem
      · exact soundSignal_of_idle (hs.signals _ (List.mem_of_getElem? hfound)).family_lt rfl
    | _ => exact hold hmem

/-! ### Logs -/

/-- Actions with their replies, the latest first. -/
abbrev Log := List (Action × Reply)

/-- The log of actions that are taken in turn. -/
def transcript (s : Signals) : List Action → Log
  | [] => []
  | a :: rest => transcript (s.act a).2 rest ++ [(a, (s.act a).1)]

theorem after_append (s : Signals) (actions later : List Action) :
    s.after (actions ++ later) = (s.after actions).after later := List.foldl_append

theorem after_concat (s : Signals) (actions : List Action) (a : Action) :
    s.after (actions ++ [a]) = ((s.after actions).act a).2 := s.after_append actions [a]

theorem transcript_append (s : Signals) (actions later : List Action) :
    s.transcript (actions ++ later) =
      (s.after actions).transcript later ++ s.transcript actions := by
  induction actions generalizing s with
  | nil => simp [transcript, after]
  | cons a rest ih => simp [transcript, ih, after]

theorem transcript_concat (s : Signals) (actions : List Action) (a : Action) :
    s.transcript (actions ++ [a]) =
      (a, ((s.after actions).act a).1) :: s.transcript actions := s.transcript_append actions [a]

/-- How many families have been made. Families are numbered in the order of their making. -/
def familyCount : Log → Nat
  | [] => 0
  | (.newHandle, .made _) :: log => familyCount log + 1
  | (.orphan, .made _) :: log => familyCount log + 1
  | _ :: log => familyCount log

/-- That a handle was made as one of a family. -/
inductive HandleOf : Log → Nat → Nat → Prop
  | new {log : Log} {h : Nat} : HandleOf ((.newHandle, .made h) :: log) h (familyCount log)
  | copy {log : Log} {g h f : Nat} (hg : HandleOf log g f) :
    HandleOf ((.copyHandle g, .made h) :: log) h f
  | later {log : Log} {e : Action × Reply} {h f : Nat} (hh : HandleOf log h f) :
    HandleOf (e :: log) h f

/-- That a signal was taken from a handle of a family, or made as one of a family without handles,
or copied from such a signal. -/
inductive SignalOf : Log → Nat → Nat → Prop
  | taken {log : Log} {h i f : Nat} (hh : HandleOf log h f) :
    SignalOf ((.signal h, .made i) :: log) i f
  | orphan {log : Log} {i : Nat} : SignalOf ((.orphan, .made i) :: log) i (familyCount log)
  | copy {log : Log} {i j f : Nat} (hi : SignalOf log i f) :
    SignalOf ((.copySignal i, .made j) :: log) j f
  | later {log : Log} {e : Action × Reply} {i f : Nat} (hi : SignalOf log i f) :
    SignalOf (e :: log) i f

/-- That a handle of a family was stopped. -/
inductive Stopped : Log → Nat → Prop
  | now {log : Log} {h f : Nat} (hh : HandleOf log h f) : Stopped ((.stop h, .done) :: log) f
  | later {log : Log} {e : Action × Reply} {f : Nat} (hf : Stopped log f) : Stopped (e :: log) f

/-- That a handle was released. -/
abbrev Released (log : Log) (h : Nat) : Prop := (.release h, .done) ∈ log

variable {log : Log} {e : Action × Reply}

theorem SignalOf.append (hi : SignalOf log i f) (entries : Log) :
    SignalOf (entries ++ log) i f := by
  induction entries with
  | nil => exact hi
  | cons e entries ih => exact .later ih

theorem Stopped.append (hf : Stopped log f) (entries : Log) : Stopped (entries ++ log) f := by
  induction entries with
  | nil => exact hf
  | cons e entries ih => exact .later ih

theorem handleOf_cons_iff :
    HandleOf (e :: log) h f ↔
      (e = (.newHandle, .made h) ∧ f = familyCount log) ∨
        (∃ g, e = (.copyHandle g, .made h) ∧ HandleOf log g f) ∨ HandleOf log h f := by
  constructor
  · intro hh
    cases hh with
    | new => exact .inl ⟨rfl, rfl⟩
    | copy hg => exact .inr (.inl ⟨_, rfl, hg⟩)
    | later hh => exact .inr (.inr hh)
  · rintro (⟨rfl, rfl⟩ | ⟨g, rfl, hg⟩ | hh)
    · exact .new
    · exact .copy hg
    · exact .later hh

theorem signalOf_cons_iff :
    SignalOf (e :: log) i f ↔
      (∃ h, e = (.signal h, .made i) ∧ HandleOf log h f) ∨
        (e = (.orphan, .made i) ∧ f = familyCount log) ∨
          (∃ j, e = (.copySignal j, .made i) ∧ SignalOf log j f) ∨ SignalOf log i f := by
  constructor
  · intro hi
    cases hi with
    | taken hh => exact .inl ⟨_, rfl, hh⟩
    | orphan => exact .inr (.inl ⟨rfl, rfl⟩)
    | copy hi => exact .inr (.inr (.inl ⟨_, rfl, hi⟩))
    | later hi => exact .inr (.inr (.inr hi))
  · rintro (⟨h, rfl, hh⟩ | ⟨rfl, rfl⟩ | ⟨j, rfl, hj⟩ | hi)
    · exact .taken hh
    · exact .orphan
    · exact .copy hj
    · exact .later hi

theorem stopped_cons_iff :
    Stopped (e :: log) f ↔ (∃ h, e = (.stop h, .done) ∧ HandleOf log h f) ∨ Stopped log f := by
  constructor
  · intro hf
    cases hf with
    | now hh => exact .inl ⟨_, rfl, hh⟩
    | later hf => exact .inr hf
  · rintro (⟨h, rfl, hh⟩ | hf)
    · exact .now hh
    · exact .later hf

/-- What a log says is what the handles and signals are. -/
structure Records (log : Log) (s : Signals) : Prop where
  familyCount_eq : familyCount log = s.families.length
  handle_lt : ∀ {h f}, HandleOf log h f → h < s.handles.length
  released_lt : ∀ {h}, Released log h → h < s.handles.length
  live_iff : ∀ {h f}, s.family? h = some f ↔ HandleOf log h f ∧ ¬ Released log h
  signal_iff : ∀ {i f}, s.signalFamily? i = some f ↔ SignalOf log i f
  stopped_iff : ∀ {f}, (s.family f).stopped = true ↔ Stopped log f

theorem records_empty : Records [] {} where
  familyCount_eq := rfl
  handle_lt hh := nomatch hh
  released_lt hreleased := nomatch hreleased
  live_iff := ⟨fun hlive => by simp [family?] at hlive, fun hh => nomatch hh.1⟩
  signal_iff := ⟨fun hi => by simp [signalFamily?] at hi, fun hi => (nomatch hi)⟩
  stopped_iff := ⟨fun hf => by simp [family] at hf, fun hf => (nomatch hf)⟩

theorem Records.handleOf_iff (h : Records log s) (hlive : s.family? g = some f) {k : Nat} :
    HandleOf log g k ↔ k = f := by
  obtain ⟨hof, hreleased⟩ := h.live_iff.1 hlive
  constructor
  · intro hk
    have := h.live_iff.2 ⟨hk, hreleased⟩
    rw [hlive] at this
    exact (Option.some.inj this).symm
  · rintro rfl
    exact hof

theorem Records.familyCount_change (h : Records log s) (hchange : Change s a reply s') :
    familyCount ((a, reply) :: log) = s'.families.length := by
  cases hchange <;> simp [familyCount, h.familyCount_eq]

theorem Records.stopped_change (h : Records log s) (hs : s.Sound) (hchange : Change s a reply s') :
    (s'.family f).stopped = true ↔ Stopped ((a, reply) :: log) f := by
  rw [stopped_cons_iff, ← h.stopped_iff]
  cases hchange with
  | stop hlive =>
    rw [family_stop (hs.family_lt _ _ hlive)]
    split_ifs with hf <;> simp [h.handleOf_iff hlive, hf]
  | _ => simp

theorem Records.live_change (h : Records log s) (hchange : Change s a reply s') :
    s'.family? g = some f ↔
      HandleOf ((a, reply) :: log) g f ∧ ¬ Released ((a, reply) :: log) g := by
  have hold := h.live_iff (h := g) (f := f)
  -- the next number is that of no handle yet
  have hnew : ¬ HandleOf log s.handles.length f := fun hh => Nat.lt_irrefl _ (h.handle_lt hh)
  have hkept : ¬ Released log s.handles.length := fun hh => Nat.lt_irrefl _ (h.released_lt hh)
  rw [handleOf_cons_iff]
  cases hchange with
  | newHandle =>
    rw [family?_addFamily]
    split_ifs with hg
    · simp [hnew, hkept, hg, h.familyCount_eq, eq_comm]
    · simpa [Ne.symm hg] using hold
  | copyHandle hlive =>
    rw [family?_addHandle]
    split_ifs with hg
    · simp [hnew, hkept, hg, h.handleOf_iff hlive, eq_comm]
    · simpa [Ne.symm hg] using hold
  | release hlive =>
    rw [family?_release]
    split_ifs with hg
    · simp [hg]
    · simpa [hg] using hold
  | _ => simpa using hold

theorem Records.signal_change (h : Records log s) (hchange : Change s a reply s') :
    s'.signalFamily? i = some f ↔ SignalOf ((a, reply) :: log) i f := by
  have hold := h.signal_iff (i := i) (f := f)
  have hnew : ¬ SignalOf log s.signals.length f := fun hi => by
    have := h.signal_iff.2 hi
    simp [signalFamily?] at this
  rw [signalOf_cons_iff]
  cases hchange with
  | signal hlive =>
    rw [signalFamily?_addSignal]
    split_ifs with hi
    · simp [hnew, hi, h.handleOf_iff hlive, subscribe, eq_comm]
    · simpa [Ne.symm hi] using hold
  | orphan =>
    rw [signalFamily?_addOrphan]
    split_ifs with hi
    · simp [hnew, hi, h.familyCount_eq, eq_comm]
    · simpa [Ne.symm hi] using hold
  | @copySignal j signal hfound =>
    have hcopied : SignalOf log j f ↔ signal.family = f := by
      rw [← h.signal_iff, signalFamily?, hfound, Option.map_some, Option.some.injEq]
    rw [signalFamily?_addSignal]
    split_ifs with hi
    · simp [hnew, hi, hcopied]
    · simpa [Ne.symm hi] using hold
  | poll hfound =>
    rw [signalFamily?_setSignal hfound (s.family_poll _)]
    simpa using hold
  | abandon hfound =>
    rw [signalFamily?_setSignal hfound (by rfl)]
    simpa using hold
  | _ => simpa using hold

/-- **One action** is recorded by its entry. -/
theorem Records.change (h : Records log s) (hs : s.Sound) (hchange : Change s a reply s') :
    Records ((a, reply) :: log) s' where
  familyCount_eq := h.familyCount_change hchange
  handle_lt hh := by
    rcases handleOf_cons_iff.1 hh with ⟨heq, -⟩ | ⟨g, heq, -⟩ | hh
    · obtain ⟨rfl, rfl⟩ := Prod.mk.inj heq
      cases hchange
      simp
    · obtain ⟨rfl, rfl⟩ := Prod.mk.inj heq
      cases hchange
      simp
    · exact Nat.lt_of_lt_of_le (h.handle_lt hh) hchange.length_handles_le
  released_lt hreleased := by
    refine Nat.lt_of_lt_of_le ?_ hchange.length_handles_le
    rcases List.mem_cons.1 hreleased with heq | hreleased
    · obtain ⟨rfl, rfl⟩ := Prod.mk.inj heq
      cases hchange with
      | release hlive => exact lt_of_family? hlive
    · exact h.released_lt hreleased
  live_iff := h.live_change hchange
  signal_iff := h.signal_change hchange
  stopped_iff := h.stopped_change hs hchange

/-! ### All actions -/

/-- **All actions.** After any actions everything is sound, and their log says what there is. -/
theorem sound_and_records (actions : List Action) :
    (after {} actions).Sound ∧ Records (transcript {} actions) (after {} actions) := by
  induction actions using List.reverseRecOn with
  | nil => exact ⟨sound_empty, records_empty⟩
  | append_singleton actions a ih =>
    rw [after_concat, transcript_concat]
    exact ⟨ih.1.change (change_act _ a), ih.2.change ih.1 (change_act _ a)⟩

/-- What an action answers after others. -/
def answer (actions : List Action) (a : Action) : Reply := ((after {} actions).act a).1

variable {actions : List Action}

theorem answer_poll (hi : SignalOf (transcript {} actions) i f) :
    answer actions (.poll i) = .told ((after {} actions).family f).stopped := by
  obtain ⟨hs, hrecords⟩ := sound_and_records actions
  have hfamily := hrecords.signal_iff.2 hi
  obtain ⟨signal, hfound, rfl⟩ := Option.map_eq_some_iff.1 hfamily
  have hpoll := (hs.poll (hs.signals signal (List.mem_of_getElem? hfound))).1
  simp only [answer, act, hfound, hpoll]

theorem answer_poll_of_none (hi : ∀ f, ¬ SignalOf (transcript {} actions) i f) :
    answer actions (.poll i) = .told false := by
  have hnone : (after {} actions).signals[i]? = none := by
    refine Option.eq_none_iff_forall_ne_some.2 fun signal hfound => ?_
    refine hi signal.family ((sound_and_records actions).2.signal_iff.1 ?_)
    rw [signalFamily?, hfound, Option.map_some]
  simp only [answer, act, hnone]

theorem answer_isStopped (hh : HandleOf (transcript {} actions) h f)
    (hlive : ¬ Released (transcript {} actions) h) :
    answer actions (.isStopped h) = .told ((after {} actions).family f).stopped := by
  have hfamily := (sound_and_records actions).2.live_iff.2 ⟨hh, hlive⟩
  simp only [answer, act, withHandle, hfamily]

theorem Lost.after (h : s.Lost f) (hs : s.Sound) (hf : f < s.families.length)
    (actions : List Action) : (s.after actions).Lost f := by
  induction actions generalizing s with
  | nil => exact h
  | cons a rest ih =>
    have hchange := change_act s a
    exact ih (h.change hs hf hchange) (hs.change hchange)
      (Nat.lt_of_lt_of_le hf hchange.length_families_le)

theorem lt_of_signalOf (hi : SignalOf (transcript {} actions) i f) :
    f < (after {} actions).families.length := by
  obtain ⟨hs, hrecords⟩ := sound_and_records actions
  obtain ⟨signal, hfound, rfl⟩ := Option.map_eq_some_iff.1 (hrecords.signal_iff.2 hi)
  exact (hs.signals signal (List.mem_of_getElem? hfound)).family_lt

/-- A family that is lost stays so, and none of its signals fires. -/
theorem answer_poll_of_lost (hlost : (after {} actions).Lost f)
    (hi : SignalOf (transcript {} actions) i f) (later : List Action)
    (hj : SignalOf (transcript {} (actions ++ later)) n f) :
    answer (actions ++ later) (.poll n) = .told false := by
  have hlater := hlost.after (sound_and_records actions).1 (lt_of_signalOf hi) later
  rw [answer_poll hj, after_append, hlater.not_stopped]

/-- A family that was made without handles is lost. -/
theorem lost_of_orphan (hmade : (.orphan, .made i) ∈ transcript {} actions) :
    ∃ f, SignalOf (transcript {} actions) i f ∧ (after {} actions).Lost f := by
  induction actions using List.reverseRecOn with
  | nil => exact absurd hmade List.not_mem_nil
  | append_singleton actions a ih =>
    obtain ⟨hs, hrecords⟩ := sound_and_records actions
    rw [transcript_concat] at hmade ⊢
    rw [after_concat]
    rcases List.mem_cons.1 hmade with heq | hmade
    · obtain ⟨rfl, hreply⟩ := Prod.mk.inj heq
      rw [← hreply]
      refine ⟨_, .orphan, ?_⟩
      rw [hrecords.familyCount_eq]
      refine ⟨fun h hlive => Nat.lt_irrefl _ (hs.family_lt h _ hlive), ?_⟩
      change ((Signals.after {} actions).addOrphan.family _).stopped = false
      rw [family_addOrphan, family_of_length_le (Nat.le_refl _)]
    · obtain ⟨f, hi, hlost⟩ := ih hmade
      exact ⟨f, hi.later, hlost.change hs (lt_of_signalOf hi) (change_act _ a)⟩

/-- That what is told of stops is true, now and later. -/
structure Faithful (actions : List Action) : Prop where
  /-- A signal has fired just if a handle of its family has been stopped. -/
  poll_iff : ∀ i, answer actions (.poll i) = .told true ↔
    ∃ f, SignalOf (transcript {} actions) i f ∧ Stopped (transcript {} actions) f
  /-- A poll always tells, and a handle that is left tells the same. -/
  told : ∀ i f, SignalOf (transcript {} actions) i f →
    ∃ fired, answer actions (.poll i) = .told fired ∧
      (fired = true ↔ Stopped (transcript {} actions) f) ∧
      ∀ h, HandleOf (transcript {} actions) h f → ¬ Released (transcript {} actions) h →
        answer actions (.isStopped h) = .told fired
  /-- A handle that is left tells whether one of its family has been stopped. -/
  isStopped : ∀ h f, HandleOf (transcript {} actions) h f → ¬ Released (transcript {} actions) h →
    ∃ stopped, answer actions (.isStopped h) = .told stopped ∧
      (stopped = true ↔ Stopped (transcript {} actions) f)
  /-- What has fired stays so. -/
  stays : ∀ i, answer actions (.poll i) = .told true →
    ∀ later, answer (actions ++ later) (.poll i) = .told true
  /-- A family of which every handle was released and none was stopped never fires. -/
  dropped : ∀ i f, SignalOf (transcript {} actions) i f →
    (∀ h, HandleOf (transcript {} actions) h f → Released (transcript {} actions) h) →
    ¬ Stopped (transcript {} actions) f →
    ∀ later j, SignalOf (transcript {} (actions ++ later)) j f →
      answer (actions ++ later) (.poll j) = .told false
  /-- Nor does a family that was made without handles. -/
  orphan : ∀ i, (.orphan, .made i) ∈ transcript {} actions →
    ∃ f, SignalOf (transcript {} actions) i f ∧
      ∀ later j, SignalOf (transcript {} (actions ++ later)) j f →
        answer (actions ++ later) (.poll j) = .told false

theorem poll_iff_stopped (actions : List Action) (i : Nat) :
    answer actions (.poll i) = .told true ↔
      ∃ f, SignalOf (transcript {} actions) i f ∧ Stopped (transcript {} actions) f := by
  have hrecords := (sound_and_records actions).2
  constructor
  · intro htold
    by_cases hi : ∃ f, SignalOf (transcript {} actions) i f
    · obtain ⟨f, hi⟩ := hi
      rw [answer_poll hi, Reply.told.injEq] at htold
      exact ⟨f, hi, hrecords.stopped_iff.1 htold⟩
    · rw [answer_poll_of_none (not_exists.1 hi)] at htold
      simp at htold
  · rintro ⟨f, hi, hf⟩
    rw [answer_poll hi, hrecords.stopped_iff.2 hf]

/-- **No stop is lost and none is made up.** After any actions with any number of handles and
signals, a signal is found to have fired just if a handle of its family has been stopped by then. It
matters neither whether the handle, or any other, is left, nor whether the signal is older than the
stop, nor how often it was polled, whether the wait was given up or is still taken up again. -/
theorem faithful (actions : List Action) : Faithful actions where
  poll_iff := poll_iff_stopped actions
  told i f hi := ⟨_, answer_poll hi, (sound_and_records actions).2.stopped_iff,
    fun _ hh hlive => answer_isStopped hh hlive⟩
  isStopped h f hh hlive :=
    ⟨_, answer_isStopped hh hlive, (sound_and_records actions).2.stopped_iff⟩
  stays i hfired later := by
    obtain ⟨f, hi, hf⟩ := (poll_iff_stopped actions i).1 hfired
    refine (poll_iff_stopped (actions ++ later) i).2 ⟨f, ?_, ?_⟩
    · rw [transcript_append]
      exact hi.append _
    · rw [transcript_append]
      exact hf.append _
  dropped i f hi hreleased hstopped later j hj := by
    have hrecords := (sound_and_records actions).2
    refine answer_poll_of_lost ⟨fun h hlive => ?_, ?_⟩ hi later hj
    · obtain ⟨hh, hkept⟩ := hrecords.live_iff.1 hlive
      exact hkept (hreleased h hh)
    · exact Bool.eq_false_iff.2 fun h => hstopped (hrecords.stopped_iff.1 h)
  orphan i hmade := by
    obtain ⟨f, hi, hlost⟩ := lost_of_orphan hmade
    exact ⟨f, hi, fun later j hj => answer_poll_of_lost hlost hi later hj⟩

/-- A stop that no signal was there to be told of, by a handle that is gone. -/
example : answer [.newHandle, .stop 0, .signal 0, .release 0] (.poll 0) = .told true := by decide

end Signals

end HttpEngine
