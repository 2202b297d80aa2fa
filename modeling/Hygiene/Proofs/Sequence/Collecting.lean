import Hygiene.Proofs.OrderedMap
import Hygiene.Sequence.Collector

/-!
# What a group of collectors holds

A group is made from names one after another, and the first name that repeats an earlier one is refused:
`CollectorScope.exists_ofNames_iff`, `CollectorScope.ofNames_eq_error_iff`.

`CollectorScope.Holds` says that a group has just the declared names, in their order, each with what was
sent to it, in the order sent. What it says depends on nothing but the names and the elements sent, so it
settles what every lookup finds (`Holds.get?`) and what every operation answers (`Holds.reply`), and
every operation keeps it (`Holds.act`).
-/

namespace Hygiene

namespace CollectorScope

variable {α : Type}

/-! ## Declaring names -/

/-- The group of empty collectors under given names. -/
def empties (names : List String) : CollectorScope α := ⟨⟨names.map fun name => (name, {})⟩⟩

theorem contains_empties {names : List String} {name : String} :
    (empties names : CollectorScope α).collectors.contains name = true ↔ name ∈ names := by
  simp [empties, OrderedMap.contains]

/-- Distinct names are declared one behind the other. -/
theorem declare_append {more : List String} (rest : List String) :
    ∀ {done : List String}, (done ++ more).Nodup →
      declare (empties done : CollectorScope α) (more ++ rest)
        = declare (empties (done ++ more)) rest := by
  induction more with
  | nil => intro done _; rw [List.append_nil, List.nil_append]
  | cons name more ih =>
    intro done h
    have hassoc : done ++ name :: more = done ++ [name] ++ more := by simp
    have hnew : (empties done : CollectorScope α).collectors.contains name = false := by
      rw [← Bool.not_eq_true, contains_empties]
      exact fun hmem => (List.nodup_append.mp h).2.2 name hmem name List.mem_cons_self rfl
    have hinsert : (⟨(empties done : CollectorScope α).collectors.insert name {}⟩ : CollectorScope α)
        = empties (done ++ [name]) := by
      rw [OrderedMap.insert_of_not_contains hnew, empties, empties, List.map_append]
      rfl
    rw [List.cons_append, declare, hnew, hinsert, hassoc]
    rw [hassoc] at h
    exact ih h

theorem ofNames_of_nodup {names : List String} (h : names.Nodup) :
    (ofNames names : Except Fault (CollectorScope α)) = .ok (empties names) := by
  have hall : declare (empties [] : CollectorScope α) (names ++ []) = declare (empties names) [] :=
    declare_append [] h
  rwa [List.append_nil] at hall

theorem ofNames_of_repeat {before behind : List String} {name : String} (h : before.Nodup)
    (hmem : name ∈ before) :
    (ofNames (before ++ name :: behind) : Except Fault (CollectorScope α))
      = .error (.duplicateName name .collectorScope) := by
  have hknown : (empties before : CollectorScope α).collectors.contains name = true :=
    contains_empties.mpr hmem
  have hall : declare (empties [] : CollectorScope α) (before ++ name :: behind)
      = declare (empties before) (name :: behind) := declare_append _ h
  rw [declare, hknown] at hall
  exact hall

/-- A group is made exactly from distinct names. -/
theorem exists_ofNames_iff {names : List String} :
    (∃ scope : CollectorScope α, ofNames names = .ok scope) ↔ names.Nodup := by
  constructor
  · rintro ⟨scope, hscope⟩
    by_contra hnodup
    obtain ⟨before, name, behind, rfl, hbefore, hmem⟩ := exists_first_repeat hnodup
    rw [ofNames_of_repeat hbefore hmem] at hscope
    cases hscope
  · exact fun h => ⟨_, ofNames_of_nodup h⟩

/-- Names that are not distinct are refused for the first one that repeats an earlier one. -/
theorem ofNames_eq_error_iff {names : List String} {fault : Fault} :
    (ofNames names : Except Fault (CollectorScope α)) = .error fault ↔
      ∃ before name behind, names = before ++ name :: behind ∧ before.Nodup ∧ name ∈ before
        ∧ fault = .duplicateName name .collectorScope := by
  constructor
  · intro hfault
    have hnodup : ¬ names.Nodup := by
      intro h
      rw [ofNames_of_nodup h] at hfault
      cases hfault
    obtain ⟨before, name, behind, rfl, hbefore, hmem⟩ := exists_first_repeat hnodup
    rw [ofNames_of_repeat hbefore hmem] at hfault
    exact ⟨before, name, behind, rfl, hbefore, hmem, (Except.error.inj hfault).symm⟩
  · rintro ⟨before, name, behind, rfl, hbefore, hmem, rfl⟩
    exact ofNames_of_repeat hbefore hmem

/-! ## What a group holds -/

/-- Of elements sent to names, those sent to one name, in order. -/
def sentTo (name : String) (sent : List (String × α)) : List α :=
  (sent.filter fun s => name == s.1).map Prod.snd

/-- The contents that a group of collectors should have. -/
def contents (names : List String) (sent : List (String × α)) : OrderedMap String (List α) :=
  ⟨names.map fun name => (name, sentTo name sent)⟩

/-- A group has just the declared names, in their order, each with what was sent to it. -/
def Holds (names : List String) (sent : List (String × α)) (scope : CollectorScope α) : Prop :=
  scope.finalizeAll = contents names sent

theorem holds_empties (names : List String) : Holds names ([] : List (String × α)) (empties names) := by
  simp [Holds, finalizeAll, empties, contents, OrderedMap.mapValues, sentTo]

@[simp] theorem sentTo_append (name : String) (sent more : List (String × α)) :
    sentTo name (sent ++ more) = sentTo name sent ++ sentTo name more := by
  rw [sentTo, List.filter_append, List.map_append, sentTo, sentTo]

theorem sentTo_map (name target : String) (xs : List α) :
    sentTo name (xs.map fun a => (target, a)) = if name = target then xs else [] := by
  split
  next h => simp [sentTo, h, List.filter_map, Function.comp_def]
  next h => simp [sentTo, h]

namespace Holds

variable {names : List String} {sent : List (String × α)} {scope : CollectorScope α}

theorem names_eq (h : Holds names sent scope) : scope.names = names := by
  rw [← keys_finalizeAll, h]
  simp [contents, OrderedMap.keys, Function.comp_def]

/-- Looking a name up finds what was sent to it if it is declared, and nothing if it is not. -/
theorem get? (h : Holds names sent scope) (name : String) :
    (scope.get? name).map Collector.toList
      = if name ∈ names then some (sentTo name sent) else none := by
  have hlookup : (scope.get? name).map Collector.toList = (contents names sent).get? name := by
    rw [← h]
    exact (OrderedMap.get?_mapValues Collector.toList scope.collectors name).symm
  rw [hlookup]
  split
  next hmem => exact List.lookup_graph (sentTo · sent) hmem
  next hmem =>
    refine OrderedMap.get?_eq_none_iff.mpr fun entry hentry => ?_
    obtain ⟨other, hother, rfl⟩ := List.mem_map.mp hentry
    exact beq_eq_false_iff_ne.mpr fun heq => hmem (heq ▸ hother)

theorem get?_of_mem (h : Holds names sent scope) {name : String} (hname : name ∈ names) :
    ∃ collector, scope.get? name = some collector ∧ collector.toList = sentTo name sent := by
  have hget := h.get? name
  rw [if_pos hname] at hget
  exact Option.map_eq_some_iff.mp hget

theorem get?_of_not_mem (h : Holds names sent scope) {name : String} (hname : name ∉ names) :
    scope.get? name = none := by
  have hget := h.get? name
  rw [if_neg hname] at hget
  exact Option.map_eq_none_iff.mp hget

/-- Adding elements to the collector of one name is sending them to that name, declared or not. -/
theorem update (h : Holds names sent scope) {name : String} {xs : List α}
    {f : Collector α → Collector α} (hf : ∀ c, (f c).toList = c.toList ++ xs) :
    Holds names (sent ++ xs.map fun a => (name, a)) (scope.update name f) := by
  -- what becomes of an entry shows in its name and its contents
  let add (entry : String × List α) : String × List α :=
    (entry.1, entry.2 ++ if entry.1 = name then xs else [])
  have hadd : (scope.update name f).finalizeAll = ⟨scope.finalizeAll.entries.map add⟩ := by
    simp only [finalizeAll, CollectorScope.update, OrderedMap.mapValues, OrderedMap.modify,
      List.map_map, OrderedMap.mk.injEq]
    refine List.map_congr_left fun entry _ => ?_
    by_cases hname : entry.1 = name
    · simp [add, hname, hf]
    · simp [add, hname, Ne.symm hname]
  rw [Holds, hadd, h]
  simp [contents, add, Function.comp_def, sentTo_map]

/-- Taking a group apart stores each of its names once. -/
theorem intoFinalized_eq (h : Holds names sent scope) (hnames : names.Nodup) :
    scope.intoFinalized = scope.finalizeAll := by
  have hkeys : (scope.collectors.entries.map Prod.fst).Nodup := by
    rw [show scope.collectors.entries.map Prod.fst = names from h.names_eq]
    exact hnames
  refine OrderedMap.ofList_eq ?_
  rw [List.pairwise_map]
  refine (List.pairwise_map.mp hkeys).imp fun hne => ?_
  exact beq_eq_false_iff_ne.mpr (Ne.symm hne)

end Holds

/-! ## Operations on a group -/

/-- What can be done with a group. -/
inductive Act (α : Type) where
  | append (name : String) (a : α)
  /-- Extend the collector of that name in place, if there is one. -/
  | extend (name : String) (xs : List α)
  | finalize (name : String)
  | finalizeAll

/-- What an operation answers. -/
inductive Reply (α : Type) where
  | appended (result : Except Fault Unit)
  | extended (found : Bool)
  | snapshot (result : Except Fault (List α))
  | snapshots (all : OrderedMap String (List α))
  | cloned
  /-- There is no such group. -/
  | absent

/-- Do it: the answer, and the group afterwards. What is refused leaves the group alone. -/
def act (scope : CollectorScope α) : Act α → Reply α × CollectorScope α
  | .append name a =>
    match scope.append name a with
    | .ok next => (.appended (.ok ()), next)
    | .error fault => (.appended (.error fault), scope)
  | .extend name xs => (.extended (scope.get? name).isSome, scope.update name (·.extend xs))
  | .finalize name => (.snapshot (scope.finalize name), scope)
  | .finalizeAll => (.snapshots scope.finalizeAll, scope)

namespace Act

/-- What an operation sends, and to which name. -/
def sends : Act α → List (String × α)
  | append name a => [(name, a)]
  | extend name xs => xs.map fun a => (name, a)
  | finalize _ | finalizeAll => []

/-- The one name that an operation is about. -/
def target? : Act α → Option String
  | append name _ | extend name _ | finalize name => some name
  | finalizeAll => none

/-- The answer that an operation should give under declared names, after what has been sent. -/
def reply (names : List String) (sent : List (String × α)) : Act α → Reply α
  | append name _ =>
    .appended (if name ∈ names then .ok () else .error (.unknownCollector name))
  | extend name _ => .extended (name ∈ names)
  | finalize name =>
    .snapshot (if name ∈ names then .ok (sentTo name sent) else .error (.unknownCollector name))
  | finalizeAll => .snapshots (contents names sent)

end Act

namespace Holds

variable {names : List String} {sent : List (String × α)} {scope : CollectorScope α}

/-- **No operation loses or mixes anything**: a group holds afterwards what it held, and what was sent
to it behind that. -/
theorem act (h : Holds names sent scope) (a : Act α) :
    Holds names (sent ++ a.sends) (scope.act a).2 := by
  cases a with
  | append name x =>
    by_cases hname : name ∈ names
    · obtain ⟨collector, hget, -⟩ := h.get?_of_mem hname
      rw [CollectorScope.act, CollectorScope.append, hget]
      show Holds names (sent ++ [x].map fun a => (name, a)) (scope.update name (·.append x))
      exact h.update fun c => c.toList_append x
    · -- refused, and what was sent is for no name of the group
      rw [CollectorScope.act, CollectorScope.append, h.get?_of_not_mem hname, Holds, h]
      refine congrArg OrderedMap.mk (List.map_congr_left fun other hother => ?_)
      have hne : other ≠ name := fun heq => hname (heq ▸ hother)
      rw [sentTo_append]
      simp [Act.sends, sentTo, hne]
  | extend name xs => exact h.update fun c => c.toList_extend xs
  | finalize name => rw [Act.sends, List.append_nil]; exact h
  | finalizeAll => rw [Act.sends, List.append_nil]; exact h

/-- The answer is what the names and the elements sent so far call for. -/
theorem reply (h : Holds names sent scope) (a : Act α) : (scope.act a).1 = a.reply names sent := by
  cases a with
  | append name x =>
    rw [CollectorScope.act, CollectorScope.append, Act.reply]
    by_cases hname : name ∈ names
    · obtain ⟨collector, hget, -⟩ := h.get?_of_mem hname
      rw [hget, if_pos hname]
    · rw [h.get?_of_not_mem hname, if_neg hname]
  | extend name xs =>
    rw [CollectorScope.act, Act.reply]
    by_cases hname : name ∈ names
    · obtain ⟨collector, hget, -⟩ := h.get?_of_mem hname
      rw [hget, decide_eq_true hname, Option.isSome_some]
    · rw [h.get?_of_not_mem hname, decide_eq_false hname, Option.isSome_none]
  | finalize name =>
    rw [CollectorScope.act, CollectorScope.finalize, Act.reply]
    by_cases hname : name ∈ names
    · obtain ⟨collector, hget, hlist⟩ := h.get?_of_mem hname
      rw [hget, if_pos hname, ← hlist]
    · rw [h.get?_of_not_mem hname, if_neg hname]
  | finalizeAll => exact congrArg Reply.snapshots h

theorem append_eq_error_iff (h : Holds names sent scope) {name : String} {x : α} {fault : Fault} :
    scope.append name x = .error fault ↔ name ∉ names ∧ fault = .unknownCollector name := by
  by_cases hname : name ∈ names
  · obtain ⟨collector, hget, -⟩ := h.get?_of_mem hname
    simp [CollectorScope.append, hget, hname]
  · simp [CollectorScope.append, h.get?_of_not_mem hname, hname, eq_comm]

theorem finalize_eq_error_iff (h : Holds names sent scope) {name : String} {fault : Fault} :
    scope.finalize name = .error fault ↔ name ∉ names ∧ fault = .unknownCollector name := by
  by_cases hname : name ∈ names
  · obtain ⟨collector, hget, -⟩ := h.get?_of_mem hname
    simp [CollectorScope.finalize, hget, hname]
  · simp [CollectorScope.finalize, h.get?_of_not_mem hname, hname, eq_comm]

/-- An operation on a name that is not declared changes nothing. -/
theorem act_of_not_mem (h : Holds names sent scope) {a : Act α} {name : String}
    (ha : a.target? = some name) (hname : name ∉ names) : (scope.act a).2 = scope := by
  have hnone := h.get?_of_not_mem hname
  cases a with
  | append target x =>
    obtain rfl := Option.some.inj ha
    rw [CollectorScope.act, CollectorScope.append, hnone]
  | extend target xs =>
    obtain rfl := Option.some.inj ha
    exact congrArg CollectorScope.mk (OrderedMap.modify_of_get?_eq_none hnone _)
  | finalize target => rfl
  | finalizeAll => cases ha

end Holds

end CollectorScope

end Hygiene
