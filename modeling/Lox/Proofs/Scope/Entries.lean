import Lox.Proofs.Scope.Check
import Lox.Proofs.Scope.Table
import Mathlib.Data.List.Nodup

/-!
# Entries of tables

A table says of each name what the latest declaration of the name says (`TableScope.Matches`), and
no two of these declarations have the same slot.  So sorting the unused variables by their slots
yields the order in which they were declared, in whatever order a table is enumerated
(`TableScope.Matches.unread_arrange`).
-/

namespace Lox

/-! ## What a table has of a scope -/

/-- The entry of a declaration in a table. -/
def Declaration.entry (slot : Nat) (declaration : Declaration) : Entry :=
  ⟨slot, declaration.line, declaration.defined, declaration.read⟩

namespace Scope

/-- The entry of the latest declaration of a name. -/
def lookup? (name : String) (scope : Scope) : Option Entry :=
  (latest? name scope.names).bind fun slot => scope[slot]?.map (Declaration.entry slot)

/-- The declarations that no later one hides, in their order; the first slot is this one. -/
def lasting (first : Nat) : Scope → List (String × Entry)
  | [] => []
  | declaration :: later =>
    if later.any (·.name == declaration.name) then
      lasting (first + 1) later
    else
      (declaration.name, declaration.entry first) :: lasting (first + 1) later

variable {scope : Scope} {name : String}

/-- The latest declaration of a name stands in a scope. -/
theorem getElem?_of_latest? {slot : Nat} (found : latest? name scope.names = some slot) :
    ∃ declaration, scope[slot]? = some declaration ∧ declaration.name = name := by
  have here := ((latest?_eq_some_iff _ _ _).mp found).1
  rw [names, List.getElem?_map, Option.map_eq_some_iff] at here
  exact here

theorem lookup?_eq_some_iff (entry : Entry) :
    scope.lookup? name = some entry ↔ ∃ slot declaration, latest? name scope.names = some slot ∧
      scope[slot]? = some declaration ∧ declaration.entry slot = entry := by
  simp only [lookup?, Option.bind_eq_some_iff, Option.map_eq_some_iff]
  constructor
  · rintro ⟨slot, found, declaration, here, same⟩
    exact ⟨slot, declaration, found, here, same⟩
  · rintro ⟨slot, declaration, found, here, same⟩
    exact ⟨slot, found, declaration, here, same⟩

theorem isSome_lookup? : (scope.lookup? name).isSome = scope.any (·.name == name) := by
  have present : (scope.any (·.name == name)) = decide (name ∈ scope.names) := by
    rw [Bool.eq_iff_iff, List.any_eq_true, decide_eq_true_iff, names, List.mem_map]
    simp only [beq_iff_eq]
  rw [present]
  cases found : latest? name scope.names with
  | none =>
    have absent := (latest?_eq_none_iff _ _).mp found
    simp [lookup?, found, absent]
  | some slot =>
    have isThere : name ∈ scope.names := by
      by_contra absent
      rw [(latest?_eq_none_iff _ _).mpr absent] at found
      cases found
    obtain ⟨declaration, here, -⟩ := getElem?_of_latest? found
    simp [lookup?, found, here, isThere]

/-- A declaration hides the others of its name. -/
theorem lookup?_append (scope : Scope) (declaration : Declaration) (name : String) :
    lookup? name (scope ++ [declaration]) =
      if declaration.name = name then some (declaration.entry scope.length)
      else scope.lookup? name := by
  have names_eq : names (scope ++ [declaration]) = scope.names ++ [declaration.name] := by
    rw [names, List.map_append]
    rfl
  rw [lookup?, lookup?, names_eq, latest?_append]
  by_cases same : declaration.name = name
  · have here : scope.names.length = scope.length := List.length_map _
    rw [if_pos same, if_pos same, here]
    simp
  · rw [if_neg same, if_neg same]
    cases found : latest? name scope.names with
    | none => rfl
    | some slot =>
      have inside := lt_length_of_latest? found
      rw [names, List.length_map] at inside
      simp only [Option.bind_some, List.getElem?_append_left inside]

/-- A change of the latest declaration of a name changes the entry of this name only. -/
theorem lookup?_modify {changed : String} {slot : Nat}
    (found : latest? changed scope.names = some slot) (change : Declaration → Declaration)
    (changeEntry : Entry → Entry)
    (keeps : ∀ declaration, (change declaration).name = declaration.name)
    (agree : ∀ declaration,
      (change declaration).entry slot = changeEntry (declaration.entry slot)) (name : String) :
    lookup? name (scope.modify slot change) =
      if changed = name then (scope.lookup? name).map changeEntry else scope.lookup? name := by
  rw [lookup?, lookup?, names_modify scope slot keeps]
  by_cases same : changed = name
  · subst same
    obtain ⟨declaration, here, -⟩ := getElem?_of_latest? found
    simp [found, here, agree]
  · rw [if_neg same]
    cases foundOther : latest? name scope.names with
    | none => rfl
    | some other =>
      have apart : slot ≠ other := by
        rintro rfl
        obtain ⟨declaration, here, isChanged⟩ := getElem?_of_latest? found
        obtain ⟨_, there, isOther⟩ := getElem?_of_latest? foundOther
        cases here.symm.trans there
        exact same (isChanged.symm.trans isOther)
      simp only [Option.bind_some, List.getElem?_modify_ne _ _ apart]

theorem lookup?_define (scope : Scope) (changed name : String) :
    (scope.define changed).lookup? name =
      if changed = name then
        (scope.lookup? name).map fun entry => { entry with defined := true }
      else scope.lookup? name := by
  rw [define]
  cases found : latest? changed scope.names with
  | none =>
    by_cases same : changed = name
    · have absent : scope.lookup? name = none := by
        rw [lookup?, ← same, found]
        rfl
      rw [if_pos same, absent]
      rfl
    · rw [if_neg same]
  | some slot => exact lookup?_modify found _ _ (fun _ => by rfl) (fun _ => by rfl) name

/-- Where the declarations of a scope stand does not change when they are completed or read. -/
theorem places_modify (scope : Scope) (slot : Nat) {change : Declaration → Declaration}
    (keeps : ∀ declaration, (change declaration).name = declaration.name ∧
      (change declaration).line = declaration.line) :
    (scope.modify slot change).map (fun declaration => (⟨declaration.name, declaration.line⟩ : Name)) =
      scope.map fun declaration => ⟨declaration.name, declaration.line⟩ := by
  apply List.ext_getElem?
  intro index
  rw [List.getElem?_map, List.getElem?_map, List.getElem?_modify]
  cases scope[index]? with
  | none => rfl
  | some declaration =>
    rw [Option.map_eq_map, Option.map_some, Option.map_some, Option.map_some]
    split
    · rw [(keeps declaration).1, (keeps declaration).2]
    · rfl

/-! ## The lasting declarations -/

/-- What lasts are the latest declarations of all names. -/
theorem mem_lasting (first : Nat) (scope : Scope) (name : String) (entry : Entry) :
    (name, entry) ∈ scope.lasting first ↔ ∃ slot declaration,
      latest? name scope.names = some slot ∧ scope[slot]? = some declaration ∧
        declaration.entry (first + slot) = entry := by
  induction scope generalizing first with
  | nil => simp [lasting, names, latest?]
  | cons declaration later induction =>
    have isHidden : later.any (·.name == declaration.name) =
        (latest? declaration.name (names later)).isSome := by
      rw [← isSome_lookup?]
      cases found : latest? declaration.name (names later) with
      | none => simp [lookup?, found]
      | some slot =>
        obtain ⟨_, here, -⟩ := getElem?_of_latest? found
        simp [lookup?, found, here]
    have later_iff : (name, entry) ∈ lasting (first + 1) later ↔ ∃ slot other,
        latest? name (names later) = some slot ∧ (declaration :: later)[slot + 1]? = some other ∧
          other.entry (first + (slot + 1)) = entry := by
      rw [induction]
      simp only [List.getElem?_cons_succ, Nat.add_assoc, Nat.add_comm 1]
    have names_eq : names (declaration :: later) = declaration.name :: names later := rfl
    rw [lasting, names_eq, isHidden]
    simp only [latest?]
    cases foundOwn : latest? declaration.name (names later) with
    | some own =>
      -- The first declaration is hidden, so it is not that of the name either.
      rw [Option.isSome_some, if_pos rfl, later_iff]
      cases found : latest? name (names later) with
      | some slot => simp
      | none =>
        have different : declaration.name ≠ name := by
          rintro rfl
          rw [foundOwn] at found
          cases found
        simp [different]
    | none =>
      rw [Option.isSome_none, if_neg Bool.false_ne_true, List.mem_cons, later_iff]
      cases found : latest? name (names later) with
      | some slot =>
        have different : name ≠ declaration.name := by
          rintro rfl
          rw [foundOwn] at found
          cases found
        simp [different]
      | none =>
        by_cases same : declaration.name = name
        · simp [same, eq_comm (a := entry)]
        · simp [same, Ne.symm same]

theorem mem_lasting_zero (scope : Scope) (name : String) (entry : Entry) :
    (name, entry) ∈ scope.lasting 0 ↔ scope.lookup? name = some entry := by
  rw [mem_lasting, lookup?_eq_some_iff]
  simp only [Nat.zero_add]

/-- The slots of lasting declarations increase. -/
theorem pairwise_lasting (first : Nat) (scope : Scope) :
    (scope.lasting first).Pairwise fun earlier later => earlier.2.slot < later.2.slot := by
  induction scope generalizing first with
  | nil => exact .nil
  | cons declaration later induction =>
    rw [lasting]
    split
    · exact induction (first + 1)
    · refine .cons ?_ (induction (first + 1))
      rintro ⟨name, entry⟩ member
      obtain ⟨slot, other, -, -, rfl⟩ := (mem_lasting _ _ _ _).mp member
      show first < first + 1 + slot
      omega

/-- Two lasting declarations in one slot are the same. -/
theorem eq_of_mem_lasting {first second : String × Entry} (here : first ∈ scope.lasting 0)
    (there : second ∈ scope.lasting 0) (slots : first.2.slot = second.2.slot) : first = second := by
  have distinct : ((scope.lasting 0).map fun entry => entry.2.slot).Nodup :=
    List.pairwise_map.mpr ((pairwise_lasting 0 scope).imp Nat.ne_of_lt)
  exact List.inj_on_of_nodup_map distinct here there slots

/-- The unused ones among the lasting declarations are those that are reported. -/
theorem unread_lasting (first : Nat) (scope : Scope) :
    ((scope.lasting first).filter fun entry => !entry.2.read).map Entry.neverUsed =
      scope.unread.map fun declaration => ⟨declaration.line, .neverUsed declaration.name⟩ := by
  induction scope generalizing first with
  | nil => rfl
  | cons declaration later induction =>
    rw [lasting, unread]
    cases hidden : later.any (·.name == declaration.name) with
    | true => simpa using induction (first + 1)
    | false =>
      cases isRead : declaration.read with
      | true => simpa [Declaration.entry, isRead] using induction (first + 1)
      | false =>
        simpa [Declaration.entry, Entry.neverUsed, isRead] using induction (first + 1)

end Scope

/-! ## Names that are declared last -/

/-- What is declared and not declared again later. -/
def lastOfEach : List Name → List Name
  | [] => []
  | name :: later =>
    if later.any (·.text == name.text) then lastOfEach later else name :: lastOfEach later

/-- The lasting declarations are those of names that are not declared again. -/
theorem Scope.lastOfEach_eq (first : Nat) (scope : Scope) :
    lastOfEach (scope.map fun declaration => ⟨declaration.name, declaration.line⟩) =
      (scope.lasting first).map fun entry => ⟨entry.1, entry.2.line⟩ := by
  induction scope generalizing first with
  | nil => rfl
  | cons declaration later induction =>
    rw [List.map_cons, lastOfEach, lasting, List.any_map, induction (first + 1)]
    split
    · next hidden =>
      rw [if_pos (by simpa [Function.comp_def] using hidden)]
    · next shown =>
      rw [if_neg (by simpa [Function.comp_def] using shown), List.map_cons]
      rfl

/--
What is reported of a scope that is closed: the variables that are never read and whose names are
not declared again later, in the order in which they were declared.
-/
def Closing.InOrder (closing : Closing) : Prop :=
  closing.errors =
    ((lastOfEach closing.scope.declared).filter fun name =>
      closing.scope.entries[name.text]?.any (!·.read)).map fun name =>
        ⟨name.line, .neverUsed name.text⟩

/-! ## Tables that match scopes -/

/-- A table says what the declarations in a scope say. -/
structure TableScope.Matches (table : TableScope) (scope : Scope) : Prop where
  next : table.next = scope.length
  entries : ∀ name, table.entries[name]? = scope.lookup? name
  declared : table.declared = scope.map fun declaration => ⟨declaration.name, declaration.line⟩

namespace TableScope.Matches

variable {table : TableScope} {scope : Scope} (same : table.Matches scope)

theorem empty : TableScope.empty.Matches [] :=
  ⟨rfl, fun _ => Std.TreeMap.getElem?_emptyc, rfl⟩

include same

theorem insert (name : Name) (defined read : Bool) :
    (table.insert name defined read).Matches
      (scope ++ [⟨name.text, name.line, defined, read⟩]) := by
  constructor
  · rw [List.length_append]
    exact congrArg (· + 1) same.next
  · intro other
    rw [Scope.lookup?_append, TableScope.insert, Std.TreeMap.getElem?_insert]
    simp only [Std.LawfulEqCmp.compare_eq_iff_eq, same.entries other, same.next]
    rfl
  · rw [List.map_append]
    exact congrArg (· ++ [name]) same.declared

theorem define (name : String) : (table.define name).Matches (scope.define name) := by
  have length_eq : (scope.define name).length = scope.length := by
    rw [Scope.define]
    split
    · exact List.length_modify _ _ _
    · rfl
  constructor
  · exact same.next.trans length_eq.symm
  · intro other
    rw [Scope.lookup?_define, TableScope.define, Std.TreeMap.getElem?_modify]
    simp only [Std.LawfulEqCmp.compare_eq_iff_eq, same.entries]
    split
    · next isOther => rw [isOther]
    · rfl
  · rw [Scope.define]
    split
    · next slot _ =>
      exact same.declared.trans (scope.places_modify slot fun _ => by exact ⟨rfl, rfl⟩).symm
    · exact same.declared

/-- Reading marks the variable that a name means. -/
theorem markRead {name : String} {slot : Nat} (found : latest? name scope.names = some slot) :
    (table.markRead name).Matches (scope.markRead slot) := by
  constructor
  · exact same.next.trans (List.length_modify _ _ _).symm
  · intro other
    rw [Scope.markRead, Scope.lookup?_modify found _ (fun entry => { entry with read := true })
      (fun _ => by rfl) (fun _ => by rfl), TableScope.markRead, Std.TreeMap.getElem?_modify]
    simp only [Std.LawfulEqCmp.compare_eq_iff_eq, same.entries]
    split
    · next isOther => rw [isOther]
    · rfl
  · exact same.declared.trans (scope.places_modify slot fun _ => by exact ⟨rfl, rfl⟩).symm

theorem contains (name : String) : table.entries.contains name = scope.any (·.name == name) := by
  rw [Std.TreeMap.contains_eq_isSome_getElem?, same.entries, Scope.isSome_lookup?]

theorem isPending (name : String) :
    table.entries[name]?.any (!·.defined) = scope.isPending name := by
  rw [same.entries, Scope.lookup?, Scope.isPending]
  cases found : latest? name scope.names with
  | none => rfl
  | some slot =>
    obtain ⟨declaration, here, -⟩ := Scope.getElem?_of_latest? found
    simp [here, Declaration.entry]

/-- The entries of a table are the lasting declarations of its scope, in some order. -/
theorem perm_toList : table.entries.toList.Perm (scope.lasting 0) := by
  apply (List.perm_ext_iff_of_nodup ?_ ?_).mpr
  · rintro ⟨name, entry⟩
    rw [Std.TreeMap.mem_toList_iff_getElem?_eq_some, same.entries, Scope.mem_lasting_zero]
  · refine Std.TreeMap.distinct_keys_toList.imp ?_
    rintro first _ different rfl
    exact different Std.ReflCmp.compare_self
  · refine (Scope.pairwise_lasting 0 scope).imp ?_
    rintro first _ less rfl
    exact Nat.lt_irrefl _ less

/-- Sorting the unused entries yields them in the order of their declarations. -/
theorem unread_arrange (order : Enumeration) (turn : Nat) :
    TableScope.unread (order.arrange turn table.entries.toList) =
      (scope.lasting 0).filter fun entry => !entry.2.read := by
  have sorted := (Scope.pairwise_lasting 0 scope).filter fun entry => !entry.2.read
  have perm := ((order.perm_arrange turn table.entries.toList).trans same.perm_toList).filter
    fun entry => !entry.2.read
  have sorts : (TableScope.unread (order.arrange turn table.entries.toList)).Pairwise
      fun first second => (decide (first.2.slot ≤ second.2.slot)) = true := by
    apply List.pairwise_mergeSort
    · intro first second third less further
      exact decide_eq_true (Nat.le_trans (of_decide_eq_true less) (of_decide_eq_true further))
    · intro first second
      simpa using Nat.le_total first.2.slot second.2.slot
  refine List.Perm.eq_of_pairwise ?_ sorts (sorted.imp fun less => by simpa using Nat.le_of_lt less)
    ((List.mergeSort_perm _ _).trans perm)
  intro first second here there less more
  have isHere := List.mem_of_mem_filter (perm.mem_iff.mp (List.mem_mergeSort.mp here))
  have isThere := List.mem_of_mem_filter there
  exact Scope.eq_of_mem_lasting isHere isThere
    (Nat.le_antisymm (of_decide_eq_true less) (of_decide_eq_true more))

/-- What is reported when a scope is closed does not depend on the order of its table. -/
theorem errors_unread (order : Enumeration) (turn : Nat) :
    (TableScope.unread (order.arrange turn table.entries.toList)).map Entry.neverUsed =
      scope.unread.map fun declaration => ⟨declaration.line, .neverUsed declaration.name⟩ := by
  rw [same.unread_arrange, Scope.unread_lasting]

theorem inOrder (order : Enumeration) (turn : Nat) :
    Closing.InOrder ⟨table,
      (TableScope.unread (order.arrange turn table.entries.toList)).map Entry.neverUsed⟩ := by
  rw [Closing.InOrder, same.unread_arrange, same.declared, Scope.lastOfEach_eq 0, List.filter_map,
    List.map_map]
  refine congrArg₂ List.map rfl (List.filter_congr ?_)
  rintro ⟨name, entry⟩ member
  simp only [Function.comp_apply, same.entries, (Scope.mem_lasting_zero _ _ _).mp member]
  rfl

end TableScope.Matches

end Lox
