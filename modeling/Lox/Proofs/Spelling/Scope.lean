import Lox.Proofs.Scope.Address
import Lox.Proofs.Source.Name
import Lox.Proofs.Spelling.Tree

/-!
# Spellings that keep what names mean

A spelling is consistent if it spells different names differently and spells a use of a local like
the local.  Then a use means the same local in the program as it is spelt, with the same address
(`Stmt.occurrences_spell`): no name is captured, and none is missed.
-/

namespace Lox

/-! ## Locals and scopes -/

/-- A local as it is spelt. -/
def Local.spell (spelling : Spelling) : Local → Local
  | named name => named (name.spell spelling)
  | this => this
  | super => super

/-- Scopes as they are spelt. -/
def Scopes.spell (spelling : Spelling) (scopes : Scopes) : Scopes :=
  scopes.map (List.map (Local.spell spelling))

section

variable (spelling : Spelling)

theorem Scopes.spell_declare (scopes : Scopes) (locals : List Local) :
    (scopes.declare locals).spell spelling =
      (scopes.spell spelling).declare (locals.map (Local.spell spelling)) := by
  cases scopes with
  | nil => rfl
  | cons innermost outer => simp [spell, declare]

theorem Scopes.spell_ofClass (superclass : Option Reference) (scopes : Scopes) :
    (scopes.ofClass superclass).spell spelling =
      (scopes.spell spelling).ofClass (superclass.map (Reference.spell spelling)) := by
  cases superclass <;> rfl

/-- The scopes in a function: one for its parameters and one for its body. -/
theorem Scopes.spell_function (parameters : List Name) (scopes : Scopes) :
    Scopes.spell spelling ([] :: parameters.map Local.named :: scopes) =
      [] :: (parameters.map (Name.spell spelling)).map Local.named :: scopes.spell spelling := by
  simp only [spell, List.map_cons, List.map_map]
  rfl

/-- The scopes in an instance method. -/
theorem Scopes.spell_this (scopes : Scopes) :
    Scopes.spell spelling ([.this] :: scopes) = [.this] :: scopes.spell spelling := rfl

theorem Stmt.locals_spell : ∀ statement : Stmt,
    (statement.spell spelling).locals = statement.locals.map (Local.spell spelling)
  | .varDecl _ none | .varDecl _ (some _) | .funDecl (.mk _ _) | .classDecl _ _ _ _ => rfl
  | .expression _ | .print _ | .block _ | .breakLoop _ => rfl
  | .returnValue _ none | .returnValue _ (some _) => rfl
  | .ifElse _ whenTrue none => whenTrue.locals_spell
  | .ifElse _ whenTrue (some whenFalse) => by
    rw [Stmt.spell, Stmt.locals, Stmt.locals, whenTrue.locals_spell, whenFalse.locals_spell,
      List.map_append]
  | .whileLoop _ body => body.locals_spell

theorem Stmt.localsAll_spell (statements : List Stmt) :
    Stmt.localsAll (Stmt.spellAll spelling statements) =
      (Stmt.localsAll statements).map (Local.spell spelling) := by
  induction statements with
  | nil => rfl
  | cons first others induction =>
    rw [Stmt.localsAll, Stmt.localsAll] at induction ⊢
    rw [Stmt.spellAll, List.flatMap_cons, List.flatMap_cons, induction, first.locals_spell,
      List.map_append]

end

/-! ## The names of locals -/

theorem Stmt.isDeclared_of_locals : ∀ (statement : Stmt) (isLocal : Bool) (name : Name),
    .named name ∈ statement.locals → name.IsDeclared (statement.mentions isLocal)
  | .varDecl _ none, _, _, member => by
    cases List.mem_singleton.mp member
    exact ⟨_, List.mem_cons_self, rfl⟩
  | .varDecl _ (some _), _, _, member => by
    cases List.mem_singleton.mp member
    exact ⟨_, List.mem_cons_self, rfl⟩
  | .funDecl (.mk _ _), _, _, member => by
    cases List.mem_singleton.mp member
    exact ⟨_, List.mem_cons_self, rfl⟩
  | .classDecl _ _ _ _, _, _, member => by
    cases List.mem_singleton.mp member
    exact ⟨_, List.mem_cons_self, rfl⟩
  | .ifElse _ whenTrue none, isLocal, name, member =>
    (whenTrue.isDeclared_of_locals isLocal name member).mono (List.subset_append_right _ _)
  | .ifElse _ whenTrue (some whenFalse), isLocal, name, member => by
    rcases List.mem_append.mp member with member | member
    · apply (whenTrue.isDeclared_of_locals isLocal name member).mono
      exact List.subset_append_of_subset_left _ (List.subset_append_right _ _)
    · exact (whenFalse.isDeclared_of_locals isLocal name member).mono
        (List.subset_append_right _ _)
  | .whileLoop _ body, isLocal, name, member =>
    (body.isDeclared_of_locals isLocal name member).mono (List.subset_append_right _ _)
  | .expression _, _, _, impossible | .print _, _, _, impossible => by cases impossible
  | .block _, _, _, impossible | .breakLoop _, _, _, impossible => by cases impossible
  | .returnValue _ _, _, _, impossible => by cases impossible

section

variable {mentions : List Mention}

theorem Stmt.isDeclared_of_mentions (statement : Stmt) (isLocal : Bool)
    (mentioned : statement.mentions isLocal ⊆ mentions) (name : Name)
    (member : .named name ∈ statement.locals) : name.IsDeclared mentions :=
  (statement.isDeclared_of_locals isLocal name member).mono mentioned

theorem Stmt.isDeclared_of_mentionsAll (statements : List Stmt) (isLocal : Bool)
    (mentioned : Stmt.mentionsAll isLocal statements ⊆ mentions) (name : Name)
    (member : .named name ∈ Stmt.localsAll statements) : name.IsDeclared mentions := by
  induction statements with
  | nil => cases member
  | cons first others induction =>
    rw [Stmt.mentionsAll, List.append_subset] at mentioned
    rcases List.mem_append.mp member with here | later
    · exact first.isDeclared_of_mentions isLocal mentioned.1 name here
    · exact induction mentioned.2 later

theorem isDeclared_of_parameters {parameters : List Name}
    (mentioned : parameters.map .parameter ⊆ mentions) (name : Name)
    (member : .named name ∈ parameters.map Local.named) : name.IsDeclared mentions := by
  rcases List.mem_map.mp member with ⟨_, isParameter, ⟨⟩⟩
  exact ⟨.parameter name, mentioned (List.mem_map_of_mem isParameter), rfl⟩

theorem isDeclared_of_mentioned {mention : Mention} (mentioned : mention ∈ mentions)
    {declared : Name} (declares : mention.declared? = some declared) (name : Name)
    (member : .named name ∈ [Local.named declared]) : name.IsDeclared mentions := by
  cases List.mem_singleton.mp member
  exact ⟨mention, mentioned, declares⟩

end

/-! ## Consistent spellings -/

/-- The local that a use means. -/
def Occurrence.target? (use : Occurrence) : Option Local :=
  use.address?.bind fun address => use.scopes[address.depth]?.bind (·[address.slot]?)

/-- A spelling does not change what the uses of some names mean. -/
structure Spelling.IsConsistent (spelling : Spelling) (mentions : List Mention)
    (uses : List Occurrence) : Prop where
  /-- Names that are different stay so. -/
  apart : ∀ first ∈ mentions, ∀ second ∈ mentions,
    spelling.text first.name = spelling.text second.name → first.name.text = second.name.text
  /-- No name is spelt like `this` or `super`. -/
  plain : ∀ mention ∈ mentions,
    IsPlainName mention.name.text ∧ IsPlainName (spelling.text mention.name)
  /-- Only variables are spelt differently. -/
  labels : ∀ name, .label name ∈ mentions → spelling.text name = name.text
  /-- A use is spelt like the local that it means. -/
  uses : ∀ target, .use target ∈ mentions → ∀ use ∈ uses, use.id = target.id →
    ∀ name, name.IsDeclared mentions → use.target? = some (.named name) →
      spelling.text target.name = spelling.text name

/-- The locals in scopes have names among those for which a spelling is consistent. -/
structure Spelling.Fits (spelling : Spelling) (mentions : List Mention) (uses : List Occurrence)
    (scopes : Scopes) : Prop extends spelling.IsConsistent mentions uses where
  among : ∀ locals ∈ scopes, ∀ name, .named name ∈ locals → name.IsDeclared mentions

section

variable {spelling : Spelling} {mentions : List Mention} {uses : List Occurrence}

/-! ## Opening scopes -/

namespace Spelling.Fits

variable {scopes : Scopes} (fits : spelling.Fits mentions uses scopes)
include fits

theorem openWith {locals : List Local}
    (here : ∀ name, .named name ∈ locals → name.IsDeclared mentions) :
    spelling.Fits mentions uses (locals :: scopes) :=
  { fits with among := List.forall_mem_cons.mpr ⟨here, fits.among⟩ }

theorem openScope : spelling.Fits mentions uses ([] :: scopes) := by
  apply fits.openWith
  intro name impossible
  cases impossible

theorem openThis : spelling.Fits mentions uses ([.this] :: scopes) := by
  apply fits.openWith
  intro name impossible
  simp at impossible

theorem ofClass (superclass : Option Reference) :
    spelling.Fits mentions uses (scopes.ofClass superclass) := by
  cases superclass with
  | none => exact fits
  | some target =>
    apply fits.openWith
    intro name impossible
    simp at impossible

theorem declare {locals : List Local}
    (here : ∀ name, .named name ∈ locals → name.IsDeclared mentions) :
    spelling.Fits mentions uses (scopes.declare locals) := by
  refine { fits with among := ?_ }
  have among := fits.among
  cases scopes with
  | nil => exact among
  | cons innermost outer =>
    rcases List.forall_mem_cons.mp among with ⟨before, further⟩
    refine List.forall_mem_cons.mpr ⟨?_, further⟩
    intro name member
    rcases List.mem_append.mp member with member | member
    · exact before name member
    · exact here name member

end Spelling.Fits

/-! ## Finding a name -/

/-- The same declaration of a scope is found if just this one is spelt like the name. -/
theorem latest?_spell {name name' : String} (locals : List Local)
    (apart : ∀ declared ∈ locals, (declared.spell spelling).text = name' → declared.text = name)
    (found : ∀ slot declared, latest? name (locals.map Local.text) = some slot →
      locals[slot]? = some declared → (declared.spell spelling).text = name') :
    latest? name' ((locals.map (Local.spell spelling)).map Local.text) =
      latest? name (locals.map Local.text) := by
  induction locals with
  | nil => rfl
  | cons first others induction =>
    rw [List.forall_mem_cons] at apart
    have later := induction apart.2 fun slot declared latest here =>
      found (slot + 1) declared (by rw [List.map_cons, latest?, latest]) here
    simp only [List.map_cons, latest?, later]
    cases latest : latest? name (others.map Local.text) with
    | some slot => rfl
    | none =>
      by_cases same : first.text = name
      · have spelt : (first.spell spelling).text = name' :=
          found 0 first (by simp [latest?, latest, same]) rfl
        simp only [if_pos same, if_pos spelt]
      · have other : (first.spell spelling).text ≠ name' := fun spelt => same (apart.1 spelt)
        simp only [if_neg same, if_neg other]

/-- The same local is found if just this one is spelt like the name. -/
theorem locate?_spell {name name' : String} (scopes : Scopes)
    (apart : ∀ locals ∈ scopes, ∀ declared ∈ locals,
      (declared.spell spelling).text = name' → declared.text = name)
    (found : ∀ address locals declared, locate? name scopes.names = some address →
      scopes[address.depth]? = some locals → locals[address.slot]? = some declared →
        (declared.spell spelling).text = name') :
    locate? name' (scopes.spell spelling).names = locate? name scopes.names := by
  induction scopes with
  | nil => rfl
  | cons innermost outer induction =>
    rw [List.forall_mem_cons] at apart
    have innermostSame := latest?_spell innermost apart.1 fun slot declared latest here =>
      found ⟨0, slot⟩ innermost declared (by simp [Scopes.names, locate?, latest]) rfl here
    have names : (Scopes.spell spelling (innermost :: outer)).names =
        (innermost.map (Local.spell spelling)).map Local.text ::
          Scopes.names (Scopes.spell spelling outer) := rfl
    have names' : Scopes.names (innermost :: outer) =
        innermost.map Local.text :: Scopes.names outer := rfl
    rw [names, names', locate?, locate?, innermostSame]
    cases latest : latest? name (innermost.map Local.text) with
    | some slot => rfl
    | none =>
      have outerSame := induction apart.2 fun address locals declared locate here =>
        found ⟨address.depth + 1, address.slot⟩ locals declared
          (by rw [names', locate?, latest, locate]; rfl) here
      rw [outerSame]

/-- What is found is declared under the name. -/
theorem text_of_locate? {name : String} {scopes : Scopes} {address : Address}
    {locals : List Local} {declared : Local} (located : locate? name scopes.names = some address)
    (inScopes : scopes[address.depth]? = some locals)
    (here : locals[address.slot]? = some declared) : declared.text = name := by
  have found : (⟨0, name, true, scopes⟩ : Occurrence).address? = some address := located
  rcases Occurrence.exists_local_of_address? found with
    ⟨locals', declared', inScopes', here', text⟩
  cases inScopes.symm.trans inScopes'
  cases here.symm.trans here'
  exact text

/-! ## Uses -/

/-- A local with the name of a variable is one. -/
theorem Local.exists_named {declared : Local} (isPlain : IsPlainName declared.text) :
    ∃ name, declared = .named name := by
  cases declared with
  | named name => exact ⟨name, rfl⟩
  | this => cases isPlain
  | super => cases isPlain

theorem this_isReserved : ¬ IsPlainName "this" := fun impossible => by cases impossible

theorem super_isReserved : ¬ IsPlainName "super" := fun impossible => by cases impossible

/-- A use means the same local as it is spelt. -/
structure Occurrence.IsSpelt (spelling : Spelling) (use use' : Occurrence) : Prop where
  id : use'.id = use.id
  address : use'.address? = use.address?
  isLegal : use'.isLegal = use.isLegal
  scopes : use'.scopes = use.scopes.spell spelling

/-- A local is called `this` or `super` only if it is not spelt differently. -/
theorem Spelling.IsConsistent.text_spell_iff (consistent : spelling.IsConsistent mentions uses)
    {text : String} (reserved : ¬ IsPlainName text) (declared : Local)
    (among : ∀ name, declared = .named name → name.IsDeclared mentions) :
    (declared.spell spelling).text = text ↔ declared.text = text := by
  cases declared with
  | named name =>
    rcases among name rfl with ⟨mention, isIn, declares⟩
    obtain rfl := mention.name_of_declared? declares
    have isPlain := consistent.plain mention isIn
    constructor
    · intro same
      exact absurd (same ▸ isPlain.2) reserved
    · intro same
      exact absurd (same ▸ isPlain.1) reserved
  | this => exact Iff.rfl
  | super => exact Iff.rfl

namespace Spelling.Fits

variable {scopes : Scopes} (fits : spelling.Fits mentions uses scopes)
include fits

/-- A use of a variable means the same. -/
theorem use {target : Reference} (mentioned : .use target ∈ mentions)
    (isUse : target.occurrence scopes ∈ uses) :
    (target.occurrence scopes).IsSpelt spelling
      ((target.spell spelling).occurrence (scopes.spell spelling)) := by
  have isPlain : IsPlainName target.name.text ∧ IsPlainName (spelling.text target.name) :=
    fits.plain _ mentioned
  refine ⟨rfl, ?_, rfl, rfl⟩
  apply locate?_spell
  · intro locals inScopes declared member same
    have isPlainToo : IsPlainName (declared.spell spelling).text := same ▸ isPlain.2
    cases declared with
    | named name =>
      rcases fits.among locals inScopes name member with ⟨mention, isIn, declares⟩
      obtain rfl := mention.name_of_declared? declares
      exact fits.apart mention isIn _ mentioned same
    | this => cases isPlainToo
    | super => cases isPlainToo
  · intro address locals declared located inScopes here
    have text := text_of_locate? located inScopes here
    rcases declared.exists_named (text ▸ isPlain.1) with ⟨name, rfl⟩
    have means : (target.occurrence scopes).target? = some (.named name) := by
      have found : (target.occurrence scopes).address? = some address := located
      rw [Occurrence.target?, found]
      show (scopes[address.depth]?).bind _ = _
      rw [inScopes]
      exact here
    have declared := fits.among locals (List.mem_of_getElem? inScopes) name
      (List.mem_of_getElem? here)
    exact (fits.uses target mentioned _ isUse rfl name declared means).symm

/-- A use of `this` or `super` means the same. -/
theorem useImplicit {text : String} (reserved : ¬ IsPlainName text) (id : Nat) (isLegal : Bool) :
    Occurrence.IsSpelt spelling ⟨id, text, isLegal, scopes⟩
      ⟨id, text, isLegal, scopes.spell spelling⟩ := by
  have same : locate? text (scopes.spell spelling).names = locate? text scopes.names := by
    apply locate?_spell
    · intro locals inScopes declared member
      apply (fits.text_spell_iff reserved declared _).mp
      rintro name rfl
      exact fits.among locals inScopes name member
    · intro address locals declared located inScopes here
      apply (fits.text_spell_iff reserved declared _).mpr
      · exact text_of_locate? located inScopes here
      · rintro name rfl
        exact fits.among locals (List.mem_of_getElem? inScopes) name (List.mem_of_getElem? here)
  refine ⟨rfl, ?_, rfl, rfl⟩
  simp only [Occurrence.address?, same]

end Spelling.Fits

/-! ## The uses in a program -/

mutual

theorem Expr.occurrences_spell (around : Surroundings) {scopes : Scopes}
    (fits : spelling.Fits mentions uses scopes) : ∀ expression : Expr,
    expression.mentions ⊆ mentions → expression.occurrences around scopes ⊆ uses →
      List.Forall₂ (Occurrence.IsSpelt spelling) (expression.occurrences around scopes)
        ((expression.spell spelling).occurrences around (scopes.spell spelling))
  | .literal _, _, _ => .nil
  | .group inner, mentioned, areUses => inner.occurrences_spell around fits mentioned areUses
  | .unary _ _ operand, mentioned, areUses => operand.occurrences_spell around fits mentioned areUses
  | .binary _ _ left right, mentioned, areUses => by
    rw [Expr.mentions, List.append_subset] at mentioned
    rw [Expr.occurrences, List.append_subset] at areUses
    exact List.rel_append (left.occurrences_spell around fits mentioned.1 areUses.1)
      (right.occurrences_spell around fits mentioned.2 areUses.2)
  | .logical _ _ left right, mentioned, areUses => by
    rw [Expr.mentions, List.append_subset] at mentioned
    rw [Expr.occurrences, List.append_subset] at areUses
    exact List.rel_append (left.occurrences_spell around fits mentioned.1 areUses.1)
      (right.occurrences_spell around fits mentioned.2 areUses.2)
  | .read target, mentioned, areUses =>
    .cons (fits.use (mentioned List.mem_cons_self) (areUses List.mem_cons_self)) .nil
  | .assign target value, mentioned, areUses => by
    rw [Expr.mentions, List.cons_subset] at mentioned
    rw [Expr.occurrences, List.append_subset] at areUses
    exact List.rel_append (value.occurrences_spell around fits mentioned.2 areUses.1)
      (.cons (fits.use mentioned.1 (areUses.2 List.mem_cons_self)) .nil)
  | .call callee _ arguments, mentioned, areUses => by
    rw [Expr.mentions, List.append_subset] at mentioned
    rw [Expr.occurrences, List.append_subset] at areUses
    exact List.rel_append (callee.occurrences_spell around fits mentioned.1 areUses.1)
      (Expr.occurrencesAll_spell around fits arguments mentioned.2 areUses.2)
  | .function definition, mentioned, areUses =>
    definition.occurrences_spell around fits mentioned areUses
  | .get object _, mentioned, areUses => by
    rw [Expr.mentions, List.append_subset] at mentioned
    exact object.occurrences_spell around fits mentioned.1 areUses
  | .set object _ value, mentioned, areUses => by
    rw [Expr.mentions, List.append_subset, List.cons_subset] at mentioned
    rw [Expr.occurrences, List.append_subset] at areUses
    exact List.rel_append (object.occurrences_spell around fits mentioned.1 areUses.1)
      (value.occurrences_spell around fits mentioned.2.2 areUses.2)
  | .this id _, _, _ => .cons (fits.useImplicit this_isReserved id _) .nil
  | .super id _ _, _, _ => .cons (fits.useImplicit super_isReserved id _) .nil

theorem Expr.occurrencesAll_spell (around : Surroundings) {scopes : Scopes}
    (fits : spelling.Fits mentions uses scopes) : ∀ expressions : List Expr,
    Expr.mentionsAll expressions ⊆ mentions →
      Expr.occurrencesAll around scopes expressions ⊆ uses →
      List.Forall₂ (Occurrence.IsSpelt spelling) (Expr.occurrencesAll around scopes expressions)
        (Expr.occurrencesAll around (scopes.spell spelling) (Expr.spellAll spelling expressions))
  | [], _, _ => .nil
  | first :: others, mentioned, areUses => by
    rw [Expr.mentionsAll, List.append_subset] at mentioned
    rw [Expr.occurrencesAll, List.append_subset] at areUses
    exact List.rel_append (first.occurrences_spell around fits mentioned.1 areUses.1)
      (Expr.occurrencesAll_spell around fits others mentioned.2 areUses.2)

theorem Function.occurrences_spell (around : Surroundings) {scopes : Scopes}
    (fits : spelling.Fits mentions uses scopes) : ∀ definition : Function,
    definition.mentions ⊆ mentions → definition.occurrences around scopes ⊆ uses →
      List.Forall₂ (Occurrence.IsSpelt spelling) (definition.occurrences around scopes)
        ((definition.spell spelling).occurrences around (scopes.spell spelling))
  | .mk parameters body, mentioned, areUses => by
    rw [Function.mentions, List.append_subset] at mentioned
    have inside := (fits.openWith (isDeclared_of_parameters mentioned.1)).openScope
    have same := Stmt.occurrencesAll_spell around inside true body mentioned.2 areUses
    rw [Scopes.spell_function] at same
    exact same

theorem NamedFunction.occurrencesAll_spell (around : Surroundings) {scopes : Scopes}
    (fits : spelling.Fits mentions uses scopes) : ∀ functions : List NamedFunction,
    NamedFunction.mentionsAll functions ⊆ mentions →
      NamedFunction.occurrencesAll around scopes functions ⊆ uses →
      List.Forall₂ (Occurrence.IsSpelt spelling)
        (NamedFunction.occurrencesAll around scopes functions)
        (NamedFunction.occurrencesAll around (scopes.spell spelling)
          (NamedFunction.spellAll spelling functions))
  | [], _, _ => .nil
  | .mk name definition :: others, mentioned, areUses => by
    rw [NamedFunction.mentionsAll, List.cons_subset, List.append_subset] at mentioned
    rw [NamedFunction.occurrencesAll, List.append_subset] at areUses
    exact List.rel_append (definition.occurrences_spell around fits mentioned.2.1 areUses.1)
      (NamedFunction.occurrencesAll_spell around fits others mentioned.2.2 areUses.2)

theorem Stmt.occurrences_spell (around : Surroundings) {scopes : Scopes}
    (fits : spelling.Fits mentions uses scopes) (isLocal : Bool) : ∀ statement : Stmt,
    statement.mentions isLocal ⊆ mentions → statement.occurrences around scopes ⊆ uses →
      List.Forall₂ (Occurrence.IsSpelt spelling) (statement.occurrences around scopes)
        ((statement.spell spelling).occurrences around (scopes.spell spelling))
  | .varDecl _ none, _, _ | .breakLoop _, _, _ | .returnValue _ none, _, _ => .nil
  | .expression value, mentioned, areUses =>
    value.occurrences_spell around fits mentioned areUses
  | .print value, mentioned, areUses => value.occurrences_spell around fits mentioned areUses
  | .returnValue _ (some value), mentioned, areUses =>
    value.occurrences_spell around fits mentioned areUses
  | .varDecl name (some initial), mentioned, areUses => by
    have inside : spelling.Fits mentions uses (scopes.declare [.named name]) :=
      fits.declare (isDeclared_of_mentioned (mentioned List.mem_cons_self) rfl)
    rw [Stmt.mentions, List.cons_subset] at mentioned
    have same := initial.occurrences_spell around inside mentioned.2 areUses
    rw [Scopes.spell_declare] at same
    exact same
  | .block body, mentioned, areUses =>
    Stmt.occurrencesAll_spell around fits.openScope true body mentioned areUses
  | .ifElse condition whenTrue none, mentioned, areUses => by
    rw [Stmt.mentions, List.append_subset] at mentioned
    rw [Stmt.occurrences, List.append_subset] at areUses
    exact List.rel_append (condition.occurrences_spell around fits mentioned.1 areUses.1)
      (whenTrue.occurrences_spell around fits isLocal mentioned.2 areUses.2)
  | .ifElse condition whenTrue (some whenFalse), mentioned, areUses => by
    rw [Stmt.mentions, List.append_subset, List.append_subset] at mentioned
    rw [Stmt.occurrences, List.append_subset, List.append_subset] at areUses
    have behind := fits.declare (whenTrue.isDeclared_of_mentions isLocal mentioned.1.2)
    have same := whenFalse.occurrences_spell around behind isLocal mentioned.2 areUses.2
    rw [Scopes.spell_declare, ← whenTrue.locals_spell] at same
    exact List.rel_append (List.rel_append
      (condition.occurrences_spell around fits mentioned.1.1 areUses.1.1)
      (whenTrue.occurrences_spell around fits isLocal mentioned.1.2 areUses.1.2)) same
  | .whileLoop condition body, mentioned, areUses => by
    rw [Stmt.mentions, List.append_subset] at mentioned
    rw [Stmt.occurrences, List.append_subset] at areUses
    exact List.rel_append (condition.occurrences_spell around fits mentioned.1 areUses.1)
      (body.occurrences_spell around fits isLocal mentioned.2 areUses.2)
  | .funDecl (.mk name definition), mentioned, areUses => by
    have inside : spelling.Fits mentions uses (scopes.declare [.named name]) :=
      fits.declare (isDeclared_of_mentioned (mentioned List.mem_cons_self) rfl)
    rw [Stmt.mentions, List.cons_subset] at mentioned
    have same := definition.occurrences_spell around inside mentioned.2 areUses
    rw [Scopes.spell_declare] at same
    exact same
  | .classDecl name superclass methods classMethods, mentioned, areUses => by
    have declared : spelling.Fits mentions uses (scopes.declare [.named name]) :=
      fits.declare (isDeclared_of_mentioned (mentioned List.mem_cons_self) rfl)
    have inClass := declared.ofClass superclass
    have inInstance := inClass.openThis
    rw [Stmt.mentions, List.cons_subset, List.append_subset, List.append_subset] at mentioned
    rw [Stmt.occurrences, List.append_subset, List.append_subset] at areUses
    have ofClass := NamedFunction.occurrencesAll_spell .classMethod inClass classMethods
      mentioned.2.2.2 areUses.1.2
    have ofInstance := NamedFunction.occurrencesAll_spell (.method superclass.isSome) inInstance
      methods mentioned.2.2.1 areUses.2
    have extended : List.Forall₂ (Occurrence.IsSpelt spelling)
        (superclass.toList.map (Reference.occurrence (scopes.declare [.named name])))
        ((superclass.map (Reference.spell spelling)).toList.map
          (Reference.occurrence ((scopes.declare [.named name]).spell spelling))) := by
      cases superclass with
      | none => exact .nil
      | some target =>
        exact .cons (declared.use (mentioned.2.1 List.mem_cons_self)
          (areUses.1.1 List.mem_cons_self)) .nil
    rw [Scopes.spell_this, Scopes.spell_ofClass, Scopes.spell_declare] at ofInstance
    rw [Scopes.spell_ofClass, Scopes.spell_declare] at ofClass
    rw [Scopes.spell_declare] at extended
    rw [Stmt.spell, Stmt.occurrences, Stmt.occurrences, Option.isSome_map]
    exact List.rel_append (List.rel_append extended ofClass) ofInstance

theorem Stmt.occurrencesAll_spell (around : Surroundings) {scopes : Scopes}
    (fits : spelling.Fits mentions uses scopes) (isLocal : Bool) :
    ∀ statements : List Stmt, Stmt.mentionsAll isLocal statements ⊆ mentions →
      Stmt.occurrencesAll around scopes statements ⊆ uses →
      List.Forall₂ (Occurrence.IsSpelt spelling) (Stmt.occurrencesAll around scopes statements)
        (Stmt.occurrencesAll around (scopes.spell spelling) (Stmt.spellAll spelling statements))
  | [], _, _ => .nil
  | first :: others, mentioned, areUses => by
    rw [Stmt.mentionsAll, List.append_subset] at mentioned
    rw [Stmt.occurrencesAll, List.append_subset] at areUses
    have behind := fits.declare (first.isDeclared_of_mentions isLocal mentioned.1)
    have same := Stmt.occurrencesAll_spell around behind isLocal others mentioned.2 areUses.2
    rw [Scopes.spell_declare, ← first.locals_spell] at same
    exact List.rel_append (first.occurrences_spell around fits isLocal mentioned.1 areUses.1)
      same

end

end

end Lox
