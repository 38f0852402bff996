import HttpEngine.Routing.Table
import Mathlib.Data.List.Induction
import Mathlib.Data.List.Nodup
/-!
# Tables and their registration logs

What has been registered and removed makes up a **log** (`RouteLog`). A registration stands in it if
no later entry has its path and method (`RouteLog.standing`): a later one has replaced it, or it was
removed. A strict log takes no registration whose path and method stand already.

Whatever is asked of a table, its routes are those that stand in the log of what was asked, in the
order of the log (`RouteTable.run_reflects_log`). The table itself drops the first route of a path
and method and places a new one last, which comes to the same only because no path and method is
registered twice. Both are kept together, one change after the other.
-/

namespace HttpEngine

variable {γ : Type}

/-- The path and method under which a route is registered. -/
def Route.key (route : Route γ) : String × Method := (route.path, route.method)

theorem Route.hasKey_iff {route : Route γ} {path : String} {method : Method} :
    route.hasKey path method = true ↔ route.key = (path, method) := by
  simp [Route.hasKey, Route.key]

/-- A change that is asked of a table. -/
inductive TableChange (γ : Type) where
  | add (route : Route γ)
  | tryAdd (route : Route γ)
  | remove (path : String) (method : Method)
  | setStrict (strict : Bool)
  /-- To go on with a copy. -/
  | copy

/-- A table after a change; one that is refused leaves the table. -/
def RouteTable.change (t : RouteTable γ) : TableChange γ → RouteTable γ
  | .add route => t.add route
  | .tryAdd route =>
    match t.tryAdd route with
    | .ok t => t
    | .error _ => t
  | .remove path method => t.remove path method
  | .setStrict strict => t.setStrict strict
  | .copy => t.copy

/-- A table after changes. -/
def RouteTable.run (t : RouteTable γ) (changes : List (TableChange γ)) : RouteTable γ :=
  changes.foldl change t

/-! ### Logs -/

/-- What happened to a path and method. -/
inductive LogEntry (γ : Type) where
  | registered (route : Route γ)
  | removed (path : String) (method : Method)

/-- The path and method of an entry. -/
def LogEntry.key : LogEntry γ → String × Method
  | .registered route => route.key
  | .removed path method => (path, method)

/-- The route that an entry registers, if it does. -/
def LogEntry.route? : LogEntry γ → Option (Route γ)
  | .registered route => some route
  | .removed _ _ => none

/-- A registration log, its latest entry last. -/
structure RouteLog (γ : Type) where
  entries : List (LogEntry γ) := []
  /-- Whether a registration is refused if its path and method stand. -/
  strict : Bool := false

namespace RouteLog

/-- The routes that stand after some entries: those of the registrations behind which no entry has
the same path and method. -/
def standing : List (LogEntry γ) → List (Route γ)
  | [] => []
  | .registered route :: later =>
    if ∃ e ∈ later, e.key = route.key then standing later else route :: standing later
  | .removed _ _ :: later => standing later

/-- A log with one more entry. -/
def write (log : RouteLog γ) (e : LogEntry γ) : RouteLog γ :=
  { log with entries := log.entries ++ [e] }

/-- A log after a change that is asked for. -/
def record (log : RouteLog γ) : TableChange γ → RouteLog γ
  | .add route => log.write (.registered route)
  | .tryAdd route =>
    if log.strict ∧ route.key ∈ (standing log.entries).map Route.key then log
    else log.write (.registered route)
  | .remove path method => log.write (.removed path method)
  | .setStrict strict => { log with strict := strict }
  | .copy => log

/-- A log after changes that are asked for. -/
def run (log : RouteLog γ) (changes : List (TableChange γ)) : RouteLog γ :=
  changes.foldl record log

variable {entries : List (LogEntry γ)} {route : Route γ}

theorem exists_key_of_mem_standing (h : route ∈ standing entries) :
    ∃ e ∈ entries, e.key = route.key := by
  induction entries with
  | nil => simp [standing] at h
  | cons e later ih =>
    have hlater : route ∈ standing later → ∃ e' ∈ e :: later, e'.key = route.key := fun h =>
      let ⟨e', he', hkey⟩ := ih h
      ⟨e', List.mem_cons_of_mem e he', hkey⟩
    cases e with
    | registered first =>
      rw [standing] at h
      split_ifs at h
      · exact hlater h
      · rcases List.mem_cons.1 h with rfl | h
        · exact ⟨_, List.mem_cons_self, rfl⟩
        · exact hlater h
    | removed path method => exact hlater h

/-- No path and method stands twice. -/
theorem nodup_standing (entries : List (LogEntry γ)) :
    ((standing entries).map Route.key).Nodup := by
  induction entries with
  | nil => exact .nil
  | cons e later ih =>
    cases e with
    | registered route =>
      rw [standing]
      split_ifs with hlater
      · exact ih
      · refine List.nodup_cons.2 ⟨fun hmem => hlater ?_, ih⟩
        obtain ⟨other, hother, hkey⟩ := List.mem_map.1 hmem
        rw [← hkey]
        exact exists_key_of_mem_standing hother
    | removed path method => exact ih

/-- One more entry ends what stood under its path and method. -/
theorem standing_append_singleton (entries : List (LogEntry γ)) (e : LogEntry γ) :
    standing (entries ++ [e]) =
      (standing entries).filter (fun r => r.key ≠ e.key) ++ e.route?.toList := by
  induction entries with
  | nil => cases e <;> simp [standing, LogEntry.route?]
  | cons first later ih =>
    cases first with
    | removed path method => exact ih
    | registered route =>
      have hiff : (∃ e' ∈ later ++ [e], e'.key = route.key) ↔
          (∃ e' ∈ later, e'.key = route.key) ∨ e.key = route.key := by
        simp [or_and_right, exists_or]
      rw [List.cons_append, standing, standing, ih]
      simp only [hiff]
      by_cases hlater : ∃ e' ∈ later, e'.key = route.key
      · rw [if_pos (.inl hlater), if_pos hlater]
      · rw [if_neg hlater]
        by_cases hkey : e.key = route.key
        · rw [if_pos (.inr hkey), List.filter_cons_of_neg (by simp [hkey])]
        · have hne : route.key ≠ e.key := fun h => hkey h.symm
          rw [if_neg (not_or.2 ⟨hlater, hkey⟩), List.filter_cons_of_pos (by simpa using hne),
            List.cons_append]

end RouteLog

/-! ### Tables -/

namespace RouteTable

open RouteLog

variable {t : RouteTable γ} {log : RouteLog γ} {route : Route γ} {path : String} {method : Method}

theorem keys_eq (t : RouteTable γ) : t.keys = t.routes.map Route.key := rfl

theorem hasKey_iff : t.hasKey path method = true ↔ (path, method) ∈ t.keys := by
  simp only [hasKey, List.any_eq_true, Route.hasKey_iff, keys_eq, List.mem_map]

/-- Removing what is not there changes nothing. -/
theorem remove_of_not_mem_keys (h : (path, method) ∉ t.keys) : t.remove path method = t := by
  rw [remove, List.eraseP_of_forall_not]
  intro r hr hkey
  exact h (List.mem_map.2 ⟨r, hr, Route.hasKey_iff.1 hkey⟩)

/-- Where no path and method is there twice, the first route of one is the only one. -/
theorem eraseP_hasKey {routes : List (Route γ)} (h : (routes.map Route.key).Nodup) :
    routes.eraseP (fun r => r.hasKey path method) =
      routes.filter fun r => r.key ≠ (path, method) := by
  induction routes with
  | nil => rfl
  | cons r rest ih =>
    obtain ⟨hr, hrest⟩ := List.nodup_cons.1 h
    by_cases hkey : r.key = (path, method)
    · have hothers : rest.filter (fun r => r.key ≠ (path, method)) = rest := by
        refine List.filter_eq_self.2 fun other hother => decide_eq_true fun heq => hr ?_
        exact List.mem_map.2 ⟨other, hother, heq.trans hkey.symm⟩
      rw [List.eraseP_cons, Route.hasKey_iff.2 hkey, cond_true,
        List.filter_cons_of_neg (by simp [hkey]), hothers]
    · rw [List.eraseP_cons, Bool.eq_false_iff.2 (mt Route.hasKey_iff.1 hkey), cond_false,
        List.filter_cons_of_pos (by simp [hkey]), ih hrest]

/-- What comes of asking for a registration that may be refused. -/
theorem tryAdd_eq (t : RouteTable γ) (route : Route γ) :
    t.tryAdd route =
      if t.strict ∧ route.key ∈ t.keys then .error (.routeTaken route.method route.path)
      else .ok (t.add route) := by
  simp only [tryAdd, Bool.and_eq_true, hasKey_iff]
  rfl

theorem change_tryAdd (t : RouteTable γ) (route : Route γ) :
    t.change (.tryAdd route) = if t.strict ∧ route.key ∈ t.keys then t else t.add route := by
  rw [change, tryAdd_eq]
  split_ifs <;> rfl

/-! ### A table and its log -/

/-- That a table has the routes that stand in a log, and is as strict. -/
structure Reflects (t : RouteTable γ) (log : RouteLog γ) : Prop where
  routes_eq : t.routes = standing log.entries
  strict_eq : t.strict = log.strict

namespace Reflects

theorem nodup_keys (h : Reflects t log) : t.keys.Nodup := by
  rw [keys_eq, h.routes_eq]
  exact nodup_standing log.entries

theorem remove (h : Reflects t log) (path : String) (method : Method) :
    Reflects (t.remove path method) (log.write (.removed path method)) where
  routes_eq := by
    rw [RouteTable.remove, eraseP_hasKey h.nodup_keys, h.routes_eq, write,
      standing_append_singleton]
    exact (List.append_nil _).symm
  strict_eq := h.strict_eq

theorem add (h : Reflects t log) (route : Route γ) :
    Reflects (t.add route) (log.write (.registered route)) where
  routes_eq := by
    rw [RouteTable.add, RouteTable.remove, eraseP_hasKey h.nodup_keys, h.routes_eq, write,
      standing_append_singleton]
    rfl
  strict_eq := h.strict_eq

/-- What is asked of both comes to the same. -/
theorem change (h : Reflects t log) (c : TableChange γ) :
    Reflects (t.change c) (log.record c) := by
  cases c with
  | add route => exact h.add route
  | tryAdd route =>
    rw [change_tryAdd, record, h.strict_eq, keys_eq, h.routes_eq]
    split_ifs
    · exact h
    · exact h.add route
  | remove path method => exact h.remove path method
  | setStrict strict => exact ⟨h.routes_eq, rfl⟩
  | copy =>
    rw [RouteTable.change, copy_eq]
    exact h

theorem run (h : Reflects t log) (changes : List (TableChange γ)) :
    Reflects (t.run changes) (log.run changes) := by
  induction changes generalizing t log with
  | nil => exact h
  | cons c changes ih => exact ih (h.change c)

end Reflects

/-- **Tables reflect their logs.** Whatever is asked of a table that starts empty, lenient or
strict, its routes are those that stand in the log of what was asked, in the order of the log, and
no path and method is there twice. A registration that may be refused is refused just if the table
is strict at that time and has its path and method; then nothing changes. Nor does anything change
when a path and method is removed that is not there. -/
theorem run_reflects_log (strict : Bool) (changes : List (TableChange γ)) :
    let t : RouteTable γ := run { strict } changes
    let log : RouteLog γ := RouteLog.run { strict } changes
    t.keys.Nodup ∧ t.routes = standing log.entries ∧ t.strict = log.strict ∧
      (∀ route : Route γ,
        if t.strict ∧ route.key ∈ t.keys then
          t.tryAdd route = .error (.routeTaken route.method route.path) ∧
            t.change (.tryAdd route) = t
        else t.tryAdd route = .ok (t.add route) ∧ t.change (.tryAdd route) = t.add route) ∧
      ∀ path method, (path, method) ∉ t.keys → t.remove path method = t := by
  intro t log
  have hstart : Reflects ({ strict } : RouteTable γ) { strict } := ⟨rfl, rfl⟩
  have h : Reflects t log := hstart.run changes
  refine ⟨h.nodup_keys, h.routes_eq, h.strict_eq, fun route => ?_,
    fun path method => remove_of_not_mem_keys⟩
  rw [tryAdd_eq, change_tryAdd]
  split_ifs
  · exact ⟨rfl, rfl⟩
  · exact ⟨rfl, rfl⟩

end RouteTable

end HttpEngine
