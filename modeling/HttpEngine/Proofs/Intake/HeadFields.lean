import HttpEngine.Proofs.Intake.HeadEnd
import HttpEngine.Proofs.Message.DistinctFields
import Mathlib.Data.List.Forall2
/-!
# The fields of a head

The header lines of a head are those behind its request line, up to the first empty one. Each names
a field, and the fields of the request are the **last of each name** (`Head.LastWins`), in whatever
case the names are spelt: no two of them agree up to case, and a look-up finds the field of the last
line of its name, spelt as in that line. The two names that delimit the body are the exception. All
their lines must have the same value (`Head.Agree`), and a head is accepted just if they have
(`Head.parse_eq_ok_iff`).

Only the value that is stored is compared with a new one, and a new field takes the place of one
earlier spelling. Both suffice because the names in the store are distinct at every line: the value
that is stored is then the last, and all the values before it are the same. For the same reason
nothing depends on the order in which the store lists its fields. A store that searches some
listing for the name, takes out what it finds first, and may list its fields anew at every line
(`Head.Stores`), comes to the same fields.
-/

namespace HttpEngine.Head

open Text

variable {es : List (String × String)} {e : String × String} {name value : String} {fs fs' : Fields}

/-! ### The last field of a name -/

/-- The last of the fields of a name. -/
def lastNamed (es : List (String × String)) (name : String) : Option (String × String) :=
  (es.filter fun e => sameFolded e.1 name).getLast?

theorem lastNamed_append_singleton (es : List (String × String)) (e : String × String)
    (name : String) :
    lastNamed (es ++ [e]) name = if sameFolded e.1 name then some e else lastNamed es name := by
  rw [lastNamed, List.filter_append, List.filter_singleton]
  cases sameFolded e.1 name with
  | true => rw [cond_true, if_pos rfl, List.getLast?_concat]
  | false => rw [cond_false, List.append_nil, if_neg Bool.false_ne_true, lastNamed]

theorem of_lastNamed (h : lastNamed es name = some e) : e ∈ es ∧ sameFolded e.1 name = true :=
  List.mem_filter.1 (List.mem_of_getLast? h)

theorem lastNamed_eq_none_iff :
    lastNamed es name = none ↔ ∀ e ∈ es, sameFolded e.1 name = false := by
  simp [lastNamed]

/-- That all the fields of a name have the same value. -/
def Agree (name : String) (es : List (String × String)) : Prop :=
  ∀ d ∈ es, ∀ e ∈ es, sameFolded d.1 name = true → sameFolded e.1 name = true → d.2 = e.2

theorem agree_nil : Agree name [] := fun _ hd => absurd hd List.not_mem_nil

theorem Agree.of_append {ds : List (String × String)} (h : Agree name (es ++ ds)) :
    Agree name es :=
  fun d hd e he => h d (List.mem_append_left _ hd) e (List.mem_append_left _ he)

/-- One more field agrees with the others if it does with the last of its name. -/
theorem agree_append_singleton (h : Agree name es) :
    Agree name (es ++ [e]) ↔
      (sameFolded e.1 name = true → ∀ d, lastNamed es e.1 = some d → d.2 = e.2) := by
  constructor
  · intro hall hname d hlast
    obtain ⟨hd, hsame⟩ := of_lastNamed hlast
    exact hall d (List.mem_append_left _ hd) e (List.mem_append_right _ (List.mem_singleton_self e))
      (sameFolded_trans hsame hname) hname
  · intro hlast
    have hnew : sameFolded e.1 name = true → ∀ d ∈ es, sameFolded d.1 name = true → d.2 = e.2 := by
      intro hname d hd hdname
      have hde : sameFolded d.1 e.1 = true :=
        sameFolded_trans hdname ((sameFolded_comm name e.1).trans hname)
      cases hfound : lastNamed es e.1 with
      | none => exact absurd (lastNamed_eq_none_iff.1 hfound d hd) (by simp [hde])
      | some c =>
        obtain ⟨hc, hce⟩ := of_lastNamed hfound
        rw [h d hd c hc hdname (sameFolded_trans hce hname), hlast hname c hfound]
    simp only [Agree, List.mem_append, List.mem_singleton]
    rintro a (ha | rfl) b (hb | rfl) haname hbname
    · exact h a ha b hb haname hbname
    · exact hnew hbname a ha haname
    · exact (hnew haname b hb hbname).symm
    · rfl

/-! ### Adding fields -/

/-- That a field map holds the last fields of each name, and no two names agree up to case. -/
structure LastWins (es : List (String × String)) (fs : Fields) : Prop where
  distinct : fs.Distinct
  field?_eq : ∀ name, fs.field? name = lastNamed es name

theorem lastWins_nil : LastWins [] ∅ := ⟨Fields.distinct_empty, fun _ => rfl⟩

/-- The last fields of each name are in one map only. -/
theorem LastWins.unique (h : LastWins es fs) (h' : LastWins es fs') : fs = fs' :=
  Fields.ext_field? h.distinct h'.distinct fun name => (h.field?_eq name).trans (h'.field?_eq name).symm

theorem LastWins.insert (h : LastWins es fs) (hnone : fs.field? e.1 = none) :
    LastWins (es ++ [e]) (TextMap.insert fs e.1 e.2) where
  distinct := Fields.distinct_insert h.distinct hnone e.2
  field?_eq name := by
    rw [lastNamed_append_singleton]
    split_ifs with hname
    · refine Fields.field?_insert ?_ hname
      rw [h.field?_eq, lastNamed_eq_none_iff] at hnone ⊢
      intro d hd
      refine Bool.eq_false_iff.2 fun hdname => ?_
      have hde := sameFolded_trans hdname ((sameFolded_comm name e.1).trans hname)
      rw [hnone d hd] at hde
      exact Bool.false_ne_true hde
    · rw [Fields.field?_insert_of_ne (by simpa using hname), h.field?_eq]

theorem LastWins.set (h : LastWins es fs) (e : String × String) :
    LastWins (es ++ [e]) (fs.set e.1 e.2) where
  distinct := Fields.distinct_set h.distinct e.1 e.2
  field?_eq name := by
    rw [lastNamed_append_singleton]
    split_ifs with hname
    · exact Fields.field?_set hname
    · rw [Fields.field?_set_of_ne (by simpa using hname), h.field?_eq]

/-- That a field contradicts an earlier one about where the body ends. -/
def Contradicts (earlier : String) (e : String × String) : Prop :=
  earlier ≠ e.2 ∧ (sameFolded e.1 lengthName = true ∨ sameFolded e.1 codingName = true)

/-- Adding a field has two outcomes: it is put in place of the one of its name, if there is one, or
contradicts it. -/
theorem addField_cases (fs : Fields) (e : String × String) :
    (∃ next, addField fs e.1 e.2 = .ok next ∧
        (∀ d, fs.field? e.1 = some d → ¬ Contradicts d.2 e) ∧
        (fs.field? e.1 = none ∧ next = TextMap.insert fs e.1 e.2 ∨ next = fs.set e.1 e.2)) ∨
      ∃ cause d, addField fs e.1 e.2 = .error cause ∧ fs.field? e.1 = some d ∧
        Contradicts d.2 e := by
  rw [addField, Fields.value?_eq]
  cases hfound : fs.field? e.1 with
  | none => exact .inl ⟨_, rfl, by simp, .inl ⟨rfl, rfl⟩⟩
  | some d =>
    simp only [Option.map_some]
    split_ifs with hsame hlength hcoding
    · refine .inl ⟨_, rfl, fun c hc hcontra => hcontra.1 ?_, .inr rfl⟩
      rw [← Option.some.inj hc, hsame]
    · exact .inr ⟨_, d, rfl, rfl, hsame, .inl hlength⟩
    · exact .inr ⟨_, d, rfl, rfl, hsame, .inr hcoding⟩
    · exact .inl ⟨_, rfl, fun c hc hcontra => hcontra.2.elim hlength hcoding, .inr rfl⟩

/-- **One line.** With the last fields of each name stored, a field that agrees with those before it
is added, and then the last fields are stored again; one that disagrees is refused. -/
theorem LastWins.addField_cases (h : LastWins es fs) (hlength : Agree lengthName es)
    (hcoding : Agree codingName es) (e : String × String) :
    (∃ next, addField fs e.1 e.2 = .ok next ∧ Agree lengthName (es ++ [e]) ∧
        Agree codingName (es ++ [e]) ∧ LastWins (es ++ [e]) next) ∨
      ∃ cause, addField fs e.1 e.2 = .error cause ∧
        ¬ (Agree lengthName (es ++ [e]) ∧ Agree codingName (es ++ [e])) := by
  have hagree : (Agree lengthName (es ++ [e]) ∧ Agree codingName (es ++ [e])) ↔
      ∀ d, fs.field? e.1 = some d → ¬ Contradicts d.2 e := by
    rw [agree_append_singleton hlength, agree_append_singleton hcoding, h.field?_eq]
    simp only [Contradicts]
    grind
  rcases Head.addField_cases fs e with ⟨next, hadd, hkeeps, hnext⟩ | ⟨cause, d, hadd, hd, hcontra⟩
  · obtain ⟨hlength', hcoding'⟩ := hagree.2 hkeeps
    refine .inl ⟨next, hadd, hlength', hcoding', ?_⟩
    rcases hnext with ⟨hnone, rfl⟩ | rfl
    · exact h.insert hnone
    · exact h.set e
  · exact .inr ⟨cause, hadd, fun hall => hagree.1 hall d hd hcontra⟩

/-- That lines are read one by one as fields. -/
abbrev ReadAs (ls : List (List Char)) (es : List (String × String)) : Prop :=
  List.Forall₂ (fun line e => fieldLine line = .ok e) ls es

/-- **All lines.** Lines are read as fields and added just if they agree, with each other and with
the lines before them. -/
theorem LastWins.readEveryField_eq_ok_iff (h : LastWins es fs) (hlength : Agree lengthName es)
    (hcoding : Agree codingName es) {ls : List (List Char)} :
    readEveryField fs ls = .ok fs' ↔
      ∃ ds, ReadAs ls ds ∧ Agree lengthName (es ++ ds) ∧ Agree codingName (es ++ ds) ∧
        LastWins (es ++ ds) fs' := by
  induction ls generalizing es fs with
  | nil =>
    simp only [readEveryField, Except.ok.injEq, List.forall₂_nil_left_iff, exists_eq_left,
      List.append_nil]
    exact ⟨fun heq => ⟨hlength, hcoding, heq ▸ h⟩, fun hall => h.unique hall.2.2⟩
  | cons line rest ih =>
    rw [readEveryField]
    cases hline : fieldLine line with
    | error cause => simp [List.forall₂_cons_left_iff, hline]
    | ok e =>
      have hread : ∀ {ds}, ReadAs (line :: rest) ds ↔ ∃ later, ReadAs rest later ∧ ds = e :: later := by
        intro ds
        simp [List.forall₂_cons_left_iff, hline]
      simp only [hread]
      rcases h.addField_cases hlength hcoding e with
        ⟨next, hadd, hlength', hcoding', hlast⟩ | ⟨cause, hadd, hdisagree⟩
      · simp only [hadd, ih hlast hlength' hcoding']
        constructor
        · rintro ⟨later, hlater, hall⟩
          exact ⟨e :: later, ⟨later, hlater, rfl⟩, by rwa [List.append_cons]⟩
        · rintro ⟨-, ⟨later, hlater, rfl⟩, hall⟩
          exact ⟨later, hlater, by rwa [List.append_cons] at hall⟩
      · -- what disagrees goes on to do so whatever follows
        simp only [hadd, reduceCtorEq, false_iff]
        rintro ⟨-, ⟨later, -, rfl⟩, hlength', hcoding', -⟩
        rw [List.append_cons] at hlength' hcoding'
        exact hdisagree ⟨hlength'.of_append, hcoding'.of_append⟩

/-! ### A store in any order -/

/-- Inserts a field into a store that lists its fields in some order. -/
def insertListed (listing : List (String × String)) (name value : String) :
    List (String × String) :=
  (name, value) :: listing.filter fun e => e.1 != name

/-- Puts a field into such a store. The field that is listed first under a spelling of the name is
the only one that gives way to it, unless it is contradicted. -/
def put (listing : List (String × String)) (name value : String) :
    Except RequestError (List (String × String)) :=
  match listing.find? fun e => sameFolded e.1 name with
  | none => .ok (insertListed listing name value)
  | some (key, earlier) =>
    let others := listing.filter fun e => e.1 != key
    if earlier = value then .ok (insertListed others name value)
    else if sameFolded name lengthName then .error (.conflictingLengths earlier value)
    else if sameFolded name codingName then .error (.conflictingCodings earlier value)
    else .ok (insertListed others name value)

/-- What comes of putting fields into a store one after the other, where the store may list its
fields anew each time. -/
inductive Stores : List (String × String) → List (String × String) →
    Except RequestError (List (String × String)) → Prop
  | done {listing listing' : List (String × String)} (h : listing.Perm listing') :
    Stores listing [] (.ok listing')
  | refused {listing listing' rest : List (String × String)} {e : String × String}
    {cause : RequestError} (h : listing.Perm listing') (hput : put listing' e.1 e.2 = .error cause) :
    Stores listing (e :: rest) (.error cause)
  | stored {listing listing' next rest : List (String × String)} {e : String × String}
    {out : Except RequestError (List (String × String))} (h : listing.Perm listing')
    (hput : put listing' e.1 e.2 = .ok next) (hrest : Stores next rest out) :
    Stores listing (e :: rest) out

theorem filter_of_not_named (h : ∀ e ∈ es, sameFolded e.1 name = false) :
    es.filter (fun e => e.1 != name) = es := by
  refine List.filter_eq_self.2 fun e he => bne_iff_ne.2 fun hkey => ?_
  rw [← hkey] at h
  exact Bool.false_ne_true ((h e he).symm.trans (sameFolded_refl e.1))

/-- Where the names are distinct, taking out the field that was found leaves none of its name. -/
theorem filter_of_field? (h : fs.Distinct) (hfound : fs.field? name = some e) :
    fs.toList.filter (fun d => d.1 != e.1) = fs.toList.filter fun d => !sameFolded d.1 name := by
  obtain ⟨-, hname⟩ := (Fields.DistinctNames.find?_eq_some_iff h).1 hfound
  refine List.filter_congr fun d hd => ?_
  cases hsame : sameFolded d.1 name with
  | false =>
    have hne : d.1 ≠ e.1 := fun heq => by rw [heq, hname] at hsame; exact Bool.noConfusion hsame
    simpa using hne
  | true =>
    have hfound' := (Fields.DistinctNames.find?_eq_some_iff h).2 ⟨hd, hsame⟩
    obtain rfl := Option.some.inj (hfound.symm.trans hfound')
    simp

/-- **No order matters.** A store that lists its fields in some order takes a field that a map of
the same fields takes, with the same fields afterwards, and refuses it for the same cause. -/
theorem put_of_perm {listing : List (String × String)} (h : fs.Distinct)
    (hperm : listing.Perm fs.toList) (name value : String) :
    (∀ next, addField fs name value = .ok next →
        ∃ listing', put listing name value = .ok listing' ∧ listing'.Perm next.toList) ∧
      ∀ cause, addField fs name value = .error cause → put listing name value = .error cause := by
  have hfind : (listing.find? fun e => sameFolded e.1 name) = fs.field? name :=
    Fields.DistinctNames.find?_of_perm h hperm name
  rw [addField, put, hfind, Fields.value?_eq]
  cases hfound : fs.field? name with
  | none =>
    have hnone : ∀ e ∈ listing, sameFolded e.1 name = false := by
      rw [← hfind, List.find?_eq_none] at hfound
      exact fun e he => by simpa using hfound e he
    refine ⟨fun next hnext => ⟨_, rfl, ?_⟩, by simp⟩
    obtain rfl := Except.ok.inj hnext
    rw [insertListed, filter_of_not_named hnone]
    exact (hperm.cons _).trans (Fields.perm_insert hfound value).symm
  | some e =>
    have hset : (insertListed (listing.filter fun d => d.1 != e.1) name value).Perm
        (fs.set name value).toList := by
      have hothers := (hperm.filter fun d => d.1 != e.1).filter fun d => d.1 != name
      rw [filter_of_field? h hfound, filter_of_not_named
        (Fields.not_sameFolded_of_mem_filter fs (sameFolded_refl name))] at hothers
      exact (hothers.cons _).trans (Fields.perm_set fs name value).symm
    simp only [Option.map_some]
    split_ifs <;> simp [hset]

/-- Every way of storing fields comes to the map of them. -/
theorem LastWins.perm_of_stores (h : LastWins es fs) (hlength : Agree lengthName es)
    (hcoding : Agree codingName es) {listing ds : List (String × String)}
    {out : Except RequestError (List (String × String))} (hperm : listing.Perm fs.toList)
    (hstores : Stores listing ds out) (hlast : LastWins (es ++ ds) fs')
    (hlength' : Agree lengthName (es ++ ds)) (hcoding' : Agree codingName (es ++ ds)) :
    ∃ listing', out = .ok listing' ∧ listing'.Perm fs'.toList := by
  induction hstores generalizing es fs with
  | done hsame =>
    rw [List.append_nil] at hlast
    obtain rfl := h.unique hlast
    exact ⟨_, rfl, hsame.symm.trans hperm⟩
  | @refused listing listing' rest e cause hsame hput =>
    rw [List.append_cons] at hlength' hcoding'
    rcases h.addField_cases hlength hcoding e with ⟨next, hadd, -⟩ | ⟨cause', -, hdisagree⟩
    · obtain ⟨listing'', hput', -⟩ :=
        (put_of_perm h.distinct (hsame.symm.trans hperm) e.1 e.2).1 next hadd
      rw [hput] at hput'
      simp at hput'
    · exact absurd ⟨hlength'.of_append, hcoding'.of_append⟩ hdisagree
  | @stored listing listing' next rest e out hsame hput _ ih =>
    rw [List.append_cons] at hlast hlength' hcoding'
    rcases h.addField_cases hlength hcoding e with
      ⟨fs'', hadd, hlength'', hcoding'', hlast''⟩ | ⟨cause', -, hdisagree⟩
    · obtain ⟨listing'', hput', hperm'⟩ :=
        (put_of_perm h.distinct (hsame.symm.trans hperm) e.1 e.2).1 fs'' hadd
      obtain rfl := Except.ok.inj (hput.symm.trans hput')
      exact ih hlast'' hlength'' hcoding'' hperm' hlast hlength' hcoding'
    · exact absurd ⟨hlength'.of_append, hcoding'.of_append⟩ hdisagree

/-! ### Heads -/

/-- The lines of a head that name fields, where `rest` are those behind its request line. -/
def headerLines (rest : List (List Char)) : List (List Char) :=
  rest.takeWhile fun line => !line.isEmpty

/-- **The last of each name.** A head is accepted just if it opens with a request line and every
header line is read as a field, where those of a length agree in their values and so do those of a
coding. The fields of the request are then the last of each name: no two names agree up to case, and
a name has the field of its last line, in whatever case it is asked for and in whatever order the
fields are listed. A store that listed its fields in other orders would have come to the same. -/
theorem parse_eq_ok_iff {head : List Char} {request : Request} :
    parse head = .ok request ↔
      ∃ first rest es, lines head = first :: rest ∧
        requestLine first = .ok (request.method, request.target, request.version) ∧
        request = { method := request.method, target := request.target,
                    version := request.version, fields := request.fields } ∧
        ReadAs (headerLines rest) es ∧ Agree lengthName es ∧ Agree codingName es ∧
        request.fields.Distinct ∧
        (∀ name, request.fields.field? name = lastNamed es name ∧
          request.fields.value? name = (lastNamed es name).map (·.2)) ∧
        (∀ listing : List (String × String), listing.Perm request.fields.toList → ∀ name,
          (listing.find? fun e => sameFolded e.1 name) = lastNamed es name) ∧
        ∀ out, Stores [] es out →
          ∃ listing, out = .ok listing ∧ listing.Perm request.fields.toList := by
  have hread : ∀ {rest fields}, readFields ∅ rest = .ok fields ↔ ∃ es, ReadAs (headerLines rest) es ∧
      Agree lengthName es ∧ Agree codingName es ∧ LastWins es fields := fun {rest fields} => by
    rw [readFields_eq, lastWins_nil.readEveryField_eq_ok_iff agree_nil agree_nil, headerLines]
    simp only [List.nil_append]
  constructor
  · intro h
    rw [parse] at h
    split at h
    · simp at h
    · next first rest hlines =>
      split at h
      · simp at h
      · next method target version hline =>
        split at h
        · simp at h
        · next fields hfields =>
          obtain rfl := Except.ok.inj h
          obtain ⟨es, hes, hlength, hcoding, hlast⟩ := hread.1 hfields
          refine ⟨first, rest, es, hlines, hline, rfl, hes, hlength, hcoding, hlast.distinct,
            fun name => ⟨hlast.field?_eq name, ?_⟩, fun listing hperm name => ?_, fun out hout => ?_⟩
          · rw [Fields.value?_eq, hlast.field?_eq]
          · rw [Fields.DistinctNames.find?_of_perm hlast.distinct hperm]
            exact hlast.field?_eq name
          · exact lastWins_nil.perm_of_stores agree_nil agree_nil (.refl _) hout hlast hlength hcoding
  · rintro ⟨first, rest, es, hlines, hline, hrequest, hes, hlength, hcoding, hdistinct, hfield, -⟩
    have hfields := hread.2 ⟨es, hes, hlength, hcoding, hdistinct, fun name => (hfield name).1⟩
    rw [parse, hlines]
    simp only [hline, hfields]
    rw [← hrequest]

/-- Two lengths that differ, in two spellings and with another line between them. -/
example : parse "GET / HTTP/1.1\r\nContent-Length: 5\r\nHost: a\r\ncontent-length: 0".toList =
    .error (.conflictingLengths "5" "0") := by decide

end HttpEngine.Head
