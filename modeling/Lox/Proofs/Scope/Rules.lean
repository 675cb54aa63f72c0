import Lox.Proofs.Scope.Check
import Lox.Proofs.Source.Name
import Mathlib

/-!
# Programs without binding errors

The walk through a program reports no error exactly if the program obeys the rules on scopes:
`resolve_errors_eq_nil_iff`.  The induction over the tree passes each part of the program with
`Walk.Checks`.
-/

namespace Lox

namespace Walk

variable {walk : Walk} {context : Context} {place : Place}

theorem IsAt.allowsThis_iff (isAt : walk.IsAt context place) :
    context.thisFault? = none ↔ place.around.allowsThis := by
  rw [isAt.around]
  exact context.thisFault?_eq_none_iff

theorem IsAt.allowsSuper_iff (isAt : walk.IsAt context place) :
    context.superFault? = none ↔ place.around.allowsSuper := by
  rw [isAt.around]
  exact context.superFault?_eq_none_iff

/-- An illegal use means no local. -/
theorem Checks.illegal {before after : Walk} {scopes : Scopes} {sites : List Site}
    (checks : Checks before after scopes [] [] sites) (use : Occurrence)
    (illegal : use.isLegal = false) : Checks before after scopes [] [use] sites := by
  constructor
  · exact checks.opens
  · exact checks.errors
  · exact checks.pending
  · intro level inside slot name
    rw [checks.reads level inside]
    simp [Occurrence.Means, illegal]

/-- A use of `this` or `super` is checked by where it stands. -/
theorem checks_readImplicit {scopes : Scopes} (opens : walk.Opens scopes)
    (fault? : Option BindingFault) (id line : Nat) (name : String) {legal : Bool}
    (fits : fault? = none ↔ legal) (site : Site) (sound : site.IsSound ↔ legal) :
    Checks walk (walk.readImplicit fault? id line name) scopes [] [⟨id, name, legal, scopes⟩]
      [site] := by
  cases legal with
  | true =>
    have legal : Checks walk walk scopes [] [] [site] := .of_scopes_eq opens rfl (by simp [sound])
    rw [fits.mpr rfl]
    exact legal.andThen (checks_refer opens id name)
  | false =>
    cases fault? with
    | none => simp at fits
    | some fault =>
      have reports : Checks walk (walk.report line fault) scopes [] [] [site] :=
        .of_scopes_eq opens rfl (by simp [report, sound])
      exact reports.illegal _ rfl

/-- Nothing is declared where a block or the body of a function starts. -/
theorem isAt_openScope {scopes : Scopes} (opens : walk.Opens scopes)
    (here : place.scopes = [] :: scopes) (role : place.role = context.function)
    (around : place.around = context.surroundings) (settled : place.initialises = none) :
    walk.openScope.IsAt context place := by
  constructor
  · rw [here]
    exact opens.openScope
  · exact role
  · exact around
  · intro level innermost name
    rw [here, List.length_cons, Nat.add_right_cancel_iff, ← opens.length_eq] at innermost
    rw [settled, innermost, Pending]
    have empty := scope?_innermost [] walk.scopes walk.errors walk.bindings
    constructor
    · rintro ⟨scope, same, pending⟩
      cases same.symm.trans empty
      cases pending
    · rintro ⟨⟩
  · exact fun _ => settled

/-- The kind of a method of a class. -/
theorem roleOf_eq (around : place.around = context.surroundings)
    (inClass : context.ofClass ≠ .outside) (name : Name) :
    place.roleOf name =
      if !context.inClassMethod && name.text = "init" then .initializer else .method := by
  have allows : place.around.allowsThis = !context.inClassMethod := by
    rw [around]
    rcases context with ⟨role, ofClass, inClassMethod⟩
    cases ofClass <;> cases inClassMethod <;> first | rfl | exact absurd rfl inClass
  rw [Place.roleOf, allows]

theorem checks_returns (isAt : walk.IsAt context place) (line : Nat) :
    Checks walk (walk.returns context line) place.scopes [] [] [⟨place, .returns false⟩] := by
  have role := isAt.role
  rw [returns]
  split
  · next outside =>
    apply Checks.of_scopes_eq isAt.opens
    · rfl
    · simp [report, Site.IsSound, role, outside]
  · next inside =>
    apply Checks.of_scopes_eq isAt.opens
    · rfl
    · simp [Site.IsSound, role, inside]

theorem checks_returnsValue (isAt : walk.IsAt context place) (line : Nat) :
    Checks walk (if context.function = .initializer then
        (walk.returns context line).report line .initializerReturnsValue
      else walk.returns context line) place.scopes [] [] [⟨place, .returns true⟩] := by
  have role := isAt.role
  have first := (checks_returns isAt line).errors
  have same : (walk.returns context line).scopes = walk.scopes := by
    rw [returns]
    split <;> rfl
  split
  · next initializer =>
    apply Checks.of_scopes_eq isAt.opens
    · exact same
    · simp [report, Site.IsSound, role, initializer]
  · next other =>
    apply Checks.of_scopes_eq isAt.opens same
    simpa [Site.IsSound, role, other] using first

/-- The name of a superclass is a read of a variable. -/
theorem checks_superclass (isAt : walk.IsAt context place) (name : Name) (target : Reference) :
    Checks walk (walk.superclass name target) place.scopes [] [target.occurrence place.scopes]
      [⟨place, .subclass name.text target.name.text⟩, ⟨place, .read target.name.text⟩] := by
  unfold superclass
  extract_lets reported
  have reports : Checks walk reported place.scopes [] []
      [⟨place, .subclass name.text target.name.text⟩] := by
    simp only [reported]
    split
    · next itself =>
      apply Checks.of_scopes_eq isAt.opens
      · rfl
      · simp [report, Site.IsSound, itself]
    · next other =>
      apply Checks.of_scopes_eq isAt.opens
      · rfl
      · simp [Site.IsSound, other]
  exact reports.andThen (checks_read (isAt.then_ reports) target)

/-- What is in a scope of `this` or `super` has been passed. -/
theorem checks_closeImplicit {after : Walk} {scopes : Scopes} {name : String} {line : Nat}
    (declared : Local) {uses : List Occurrence} {sites : List Site} (opens : walk.Opens scopes)
    (isFor : Declaration.IsFor ⟨name, line, true, true⟩ declared)
    (checks : Checks (walk.openImplicit name line) after ([declared] :: scopes) [] uses sites) :
    Checks walk after.closeScope scopes [] uses sites :=
  (opensUsed_openImplicit opens declared line isFor).closeScope checks (by simp)

/-- The methods of a class have been passed: class methods first. -/
theorem checks_members {inClass inInstance : Walk} {scopes : Scopes} {line : Nat}
    {uses uses' : List Occurrence} {sites sites' : List Site}
    (classMethods : Checks walk inClass scopes [] uses sites)
    (methods : Checks (inClass.openImplicit "this" line) inInstance ([.this] :: scopes) []
      uses' sites') :
    Checks walk inInstance.closeScope scopes [] (uses ++ uses') (sites ++ sites') := by
  have opens := classMethods.opens
  rw [Scopes.declare_nil] at opens
  exact classMethods.andThen (checks_closeImplicit .this opens rfl methods)

mutual

theorem checks_expression (context : Context) (walk : Walk) (place : Place)
    (isAt : walk.IsAt context place) : ∀ expression : Expr,
      Checks walk (walk.expression context expression) place.scopes []
        (expression.occurrences place.around place.scopes) (expression.sites place)
  | .literal _ => by
    simp only [expression, Expr.occurrences, Expr.sites]
    exact .refl isAt.opens
  | .group inner => by
    simp only [expression, Expr.occurrences, Expr.sites]
    exact checks_expression context walk place isAt inner
  | .unary _ _ operand => by
    simp only [expression, Expr.occurrences, Expr.sites]
    exact checks_expression context walk place isAt operand
  | .binary _ _ left right => by
    simp only [expression, Expr.occurrences, Expr.sites]
    have first := checks_expression context walk place isAt left
    exact first.andThen (checks_expression context _ place (isAt.then_ first) right)
  | .logical _ _ left right => by
    simp only [expression, Expr.occurrences, Expr.sites]
    have first := checks_expression context walk place isAt left
    exact first.andThen (checks_expression context _ place (isAt.then_ first) right)
  | .read target => by
    simp only [expression, Expr.occurrences, Expr.sites]
    exact checks_read isAt target
  | .assign target value => by
    simp only [expression, Expr.occurrences, Expr.sites]
    have first := checks_expression context walk place isAt value
    have second := first.andThen (checks_refer (isAt.then_ first).opens target.id target.name.text)
    rw [List.append_nil] at second
    exact second
  | .call callee _ arguments => by
    simp only [expression, Expr.occurrences, Expr.sites]
    have first := checks_expression context walk place isAt callee
    exact first.andThen (checks_expressions context _ place (isAt.then_ first) arguments)
  | .function definition => by
    simp only [expression, Expr.occurrences, Expr.sites]
    exact checks_function { context with function := .function } walk place isAt.opens isAt.around
      definition
  | .get object _ => by
    simp only [expression, Expr.occurrences, Expr.sites]
    exact checks_expression context walk place isAt object
  | .set object _ value => by
    simp only [expression, Expr.occurrences, Expr.sites]
    have first := checks_expression context walk place isAt object
    exact first.andThen (checks_expression context _ place (isAt.then_ first) value)
  | .this id line => by
    simp only [expression, Expr.occurrences, Expr.sites]
    exact checks_readImplicit isAt.opens _ id line "this" isAt.allowsThis_iff _ Iff.rfl
  | .super id line _ => by
    simp only [expression, Expr.occurrences, Expr.sites]
    exact checks_readImplicit isAt.opens _ id line "super" isAt.allowsSuper_iff _ Iff.rfl

theorem checks_expressions (context : Context) (walk : Walk) (place : Place)
    (isAt : walk.IsAt context place) : ∀ expressions : List Expr,
      Checks walk (walk.expressions context expressions) place.scopes []
        (Expr.occurrencesAll place.around place.scopes expressions)
        (Expr.sitesAll place expressions)
  | [] => by
    simp only [expressions, Expr.occurrencesAll, Expr.sitesAll]
    exact .refl isAt.opens
  | value :: values => by
    simp only [expressions, Expr.occurrencesAll, Expr.sitesAll]
    have first := checks_expression context walk place isAt value
    exact first.andThen (checks_expressions context _ place (isAt.then_ first) values)

theorem checks_function (context : Context) (walk : Walk) (place : Place)
    (opens : walk.Opens place.scopes) (around : place.around = context.surroundings) :
    ∀ definition : Function,
      Checks walk (walk.function context definition) place.scopes []
        (definition.occurrences place.around place.scopes)
        (definition.sites context.function place)
  | .mk parameters body => by
    simp only [function, Function.occurrences, Function.sites]
    have inside : (walk.openParameters parameters).openScope.IsAt context
        (place.inFunction context.function parameters) :=
      isAt_openScope (opens.openParameters parameters) rfl rfl around rfl
    exact checks_closeFunction opens (checks_statements context _ _ inside rfl body)

theorem checks_methods (context : Context) (walk : Walk) (place : Place)
    (opens : walk.Opens place.scopes) (around : place.around = context.surroundings)
    (inClass : context.ofClass ≠ .outside) : ∀ methods : List NamedFunction,
      Checks walk (walk.methods context methods) place.scopes []
        (NamedFunction.occurrencesAll place.around place.scopes methods)
        (NamedFunction.sitesAll place methods)
  | [] => by
    simp only [methods, NamedFunction.occurrencesAll, NamedFunction.sitesAll]
    exact .refl opens
  | .mk name definition :: others => by
    simp only [methods, NamedFunction.occurrencesAll, NamedFunction.sitesAll]
    rw [roleOf_eq around inClass]
    have first := checks_function
      { context with function :=
          if !context.inClassMethod && name.text = "init" then .initializer else .method }
      walk place opens around definition
    have opened := first.opens
    rw [Scopes.declare_nil] at opened
    exact first.andThen (checks_methods context _ place opened around inClass others)

theorem checks_statement (context : Context) (walk : Walk) (place : Place)
    (isAt : walk.IsAt context place) (settled : place.initialises = none) : ∀ statement : Stmt,
      Checks walk (walk.statement context statement) place.scopes statement.locals
        (statement.occurrences place.around place.scopes) (statement.sites place)
  | .expression value => by
    simp only [statement, Stmt.occurrences, Stmt.sites, Stmt.locals]
    exact checks_expression context walk place isAt value
  | .print value => by
    simp only [statement, Stmt.occurrences, Stmt.sites, Stmt.locals]
    exact checks_expression context walk place isAt value
  | .varDecl name none => by
    simp only [statement, Stmt.occurrences, Stmt.sites, Stmt.locals]
    exact checks_variable isAt settled name (.refl (isAt_initialising isAt settled name).opens)
  | .varDecl name (some initial) => by
    simp only [statement, Stmt.occurrences, Stmt.sites, Stmt.locals]
    have inside := isAt_initialising isAt settled name
    exact checks_variable isAt settled name (checks_expression context _ _ inside initial)
  | .block body => by
    simp only [statement, Stmt.occurrences, Stmt.sites, Stmt.locals]
    have inside : walk.openScope.IsAt context place.inBlock :=
      isAt_openScope isAt.opens rfl isAt.role isAt.around settled
    exact checks_closeScope place isAt.opens (checks_statements context _ _ inside settled body)
  | .ifElse condition whenTrue none => by
    simp only [statement, Stmt.occurrences, Stmt.sites, Stmt.locals]
    have first := checks_expression context walk place isAt condition
    exact first.andThen (checks_statement context _ place (isAt.then_ first) settled whenTrue)
  | .ifElse condition whenTrue (some whenFalse) => by
    simp only [statement, Stmt.occurrences, Stmt.sites, Stmt.locals]
    have first := checks_expression context walk place isAt condition
    have second := checks_statement context _ place (isAt.then_ first) settled whenTrue
    have third := checks_statement context _ _ ((isAt.then_ first).next second) settled whenFalse
    exact (first.andThen second).trans third
  | .whileLoop condition body => by
    simp only [statement, Stmt.occurrences, Stmt.sites, Stmt.locals]
    have first := checks_expression context walk place isAt condition
    exact first.andThen (checks_statement context _ place (isAt.then_ first) settled body)
  | .breakLoop _ => by
    simp only [statement, Stmt.occurrences, Stmt.sites, Stmt.locals]
    exact .refl isAt.opens
  | .funDecl (.mk name definition) => by
    simp only [statement, Stmt.occurrences, Stmt.sites, Stmt.locals, NamedFunction.name]
    have declares := checks_declare isAt settled name
    have inner := checks_function { context with function := .function } _
      (place.declare [.named name]) (isAt.next declares).opens isAt.around definition
    exact declares.trans inner
  | .returnValue line none => by
    simp only [statement, Stmt.occurrences, Stmt.sites, Stmt.locals]
    exact checks_returns isAt line
  | .returnValue line (some value) => by
    simp only [statement, Stmt.occurrences, Stmt.sites, Stmt.locals]
    have first := checks_returnsValue isAt line
    exact first.andThen (checks_expression context _ place (isAt.then_ first) value)
  | .classDecl name none methods classMethods => by
    simp only [statement, Stmt.occurrences, Stmt.sites, Stmt.locals]
    have declares := checks_declare isAt settled name
    have opens := (isAt.next declares).opens
    have inClass := checks_methods ⟨context.function, .plain, true⟩ _
      (place.inClass .classMethod (place.scopes.declare [.named name])) opens rfl nofun classMethods
    have opened := inClass.opens
    rw [Scopes.declare_nil] at opened
    have inInstance := checks_methods ⟨context.function, .plain, false⟩ _
      (place.inClass (.method false) ([.this] :: place.scopes.declare [.named name]))
      (opened.openImplicit .this name.line rfl) rfl nofun methods
    exact declares.trans (checks_members inClass inInstance)
  | .classDecl name (some target) methods classMethods => by
    simp only [statement, Stmt.occurrences, Stmt.sites, Stmt.locals]
    have declares := checks_declare isAt settled name
    have extends_ := checks_superclass (isAt.next declares) name target
    have opens := ((isAt.next declares).then_ extends_).opens
    have inClass := checks_methods ⟨context.function, .subclass, true⟩ _
      (place.inClass .classMethod ([.super] :: place.scopes.declare [.named name]))
      (opens.openImplicit .super name.line rfl) rfl nofun classMethods
    have opened := inClass.opens
    rw [Scopes.declare_nil] at opened
    have inInstance := checks_methods ⟨context.function, .subclass, false⟩ _
      (place.inClass (.method true) ([.this] :: [.super] :: place.scopes.declare [.named name]))
      (opened.openImplicit .this name.line rfl) rfl nofun methods
    have members := checks_closeImplicit .super opens rfl (checks_members inClass inInstance)
    have checks := declares.trans (extends_.andThen members)
    rw [List.append_assoc, List.append_assoc]
    exact checks

theorem checks_statements (context : Context) (walk : Walk) (place : Place)
    (isAt : walk.IsAt context place) (settled : place.initialises = none) :
    ∀ statements : List Stmt,
      Checks walk (walk.statements context statements) place.scopes (Stmt.localsAll statements)
        (Stmt.occurrencesAll place.around place.scopes statements)
        (Stmt.sitesAll place statements)
  | [] => by
    simp only [statements, Stmt.occurrencesAll, Stmt.sitesAll]
    exact .refl isAt.opens
  | first :: others => by
    simp only [statements, Stmt.occurrencesAll, Stmt.sitesAll]
    have checks := checks_statement context walk place isAt settled first
    exact checks.trans (checks_statements context _ _ (isAt.next checks) settled others)

end

end Walk

/-! ## The rules on a whole program -/

theorem errors_resolve (program : List Stmt) :
    (resolve program).errors = [] ↔ ∀ site ∈ Program.sites program, site.IsSound := by
  have isAt : Walk.start.IsAt .program .program := by
    constructor
    · exact .nil
    · rfl
    · rfl
    · intro level outside
      cases outside
    · exact fun _ => rfl
  have checks := Walk.checks_statements .program .start .program isAt rfl program
  rw [resolve, Array.toList_eq_nil_iff, checks.errors]
  simp [Walk.start, Place.program, Scopes.Admits, Program.sites]

/-! ## Names of locals -/

section

variable (names : String → Prop)

/-- The locals of a scope have names from the text. -/
def Site.IsNamed : Site → Prop
  | ⟨_, .body locals _⟩ => ∀ declared ∈ locals, names declared.text
  | _ => True

theorem Stmt.named_locals : ∀ statement : Stmt, statement.IsProper names →
    ∀ declared ∈ statement.locals, names declared.text := by
  intro statement proper
  cases statement with
  | varDecl name initial =>
    cases initial with
    | none => simpa [Stmt.locals, Stmt.IsProper, Local.text] using proper
    | some value => simpa [Stmt.locals, Local.text] using proper.1
  | funDecl function =>
    cases function
    simpa [Stmt.locals, Local.text, NamedFunction.name] using proper.1
  | classDecl name superclass methods classMethods =>
    simpa [Stmt.locals, Local.text] using proper.1
  | ifElse condition whenTrue whenFalse =>
    cases whenFalse with
    | none =>
      rw [Stmt.IsProper] at proper
      simp [Stmt.locals, proper.2.2]
    | some whenFalse =>
      rw [Stmt.IsProper] at proper
      simp [Stmt.locals, proper.2.1.2, proper.2.2.2]
  | whileLoop condition body =>
    rw [Stmt.IsProper] at proper
    simp [Stmt.locals, proper.2.2]
  | expression | print | block | breakLoop | returnValue => simp [Stmt.locals]

theorem Stmt.named_localsAll (statements : List Stmt) (proper : Stmt.AreProper names statements) :
    ∀ declared ∈ Stmt.localsAll statements, names declared.text := by
  induction statements with
  | nil => simp [Stmt.localsAll]
  | cons first others induction =>
    rw [Stmt.AreProper] at proper
    rw [Stmt.localsAll, List.flatMap_cons, List.forall_mem_append]
    exact ⟨first.named_locals names proper.1, induction proper.2⟩

mutual

theorem Expr.isNamed_sites (place : Place) : ∀ expression : Expr, expression.IsProper names →
    ∀ site ∈ expression.sites place, site.IsNamed names
  | .literal _, _ => by simp [Expr.sites]
  | .this _ _, _ => by simp [Expr.sites, Site.IsNamed]
  | .super _ _ _, _ => by simp [Expr.sites, Site.IsNamed]
  | .read _, _ => by simp [Expr.sites, Site.IsNamed]
  | .group inner, proper => Expr.isNamed_sites place inner proper
  | .unary _ _ operand, proper => Expr.isNamed_sites place operand proper
  | .assign _ value, proper => Expr.isNamed_sites place value proper.2
  | .get object _, proper => Expr.isNamed_sites place object proper
  | .function definition, proper => Function.isNamed_sites .function place definition proper
  | .binary _ _ left right, proper => by
    rw [Expr.sites, List.forall_mem_append]
    exact ⟨Expr.isNamed_sites place left proper.1, Expr.isNamed_sites place right proper.2⟩
  | .logical _ _ left right, proper => by
    rw [Expr.sites, List.forall_mem_append]
    exact ⟨Expr.isNamed_sites place left proper.1, Expr.isNamed_sites place right proper.2⟩
  | .call callee _ arguments, proper => by
    rw [Expr.sites, List.forall_mem_append]
    exact ⟨Expr.isNamed_sites place callee proper.1,
      Expr.isNamed_sitesAll place arguments proper.2⟩
  | .set object _ value, proper => by
    rw [Expr.sites, List.forall_mem_append]
    exact ⟨Expr.isNamed_sites place object proper.1, Expr.isNamed_sites place value proper.2⟩

theorem Expr.isNamed_sitesAll (place : Place) : ∀ expressions : List Expr,
    Expr.AreProper names expressions → ∀ site ∈ Expr.sitesAll place expressions,
      site.IsNamed names
  | [], _ => by simp [Expr.sitesAll]
  | first :: others, proper => by
    rw [Expr.sitesAll, List.forall_mem_append]
    exact ⟨Expr.isNamed_sites place first proper.1, Expr.isNamed_sitesAll place others proper.2⟩

theorem Function.isNamed_sites (role : FunctionContext) (place : Place) :
    ∀ definition : Function, definition.IsProper names →
      ∀ site ∈ definition.sites role place, site.IsNamed names
  | .mk parameters body, proper => by
    rw [Function.sites, List.forall_mem_cons, List.forall_mem_cons]
    exact ⟨trivial, Stmt.named_localsAll names body proper.2,
      Stmt.isNamed_sitesAll _ body proper.2⟩

theorem NamedFunction.isNamed_sitesAll (place : Place) : ∀ methods : List NamedFunction,
    NamedFunction.AreProper names methods → ∀ site ∈ NamedFunction.sitesAll place methods,
      site.IsNamed names
  | [], _ => by simp [NamedFunction.sitesAll]
  | .mk _ definition :: others, proper => by
    rw [NamedFunction.sitesAll, List.forall_mem_append]
    exact ⟨Function.isNamed_sites _ place definition proper.1,
      NamedFunction.isNamed_sitesAll place others proper.2⟩

theorem Stmt.isNamed_sites (place : Place) : ∀ statement : Stmt, statement.IsProper names →
    ∀ site ∈ statement.sites place, site.IsNamed names
  | .breakLoop _, _ => by simp [Stmt.sites]
  | .varDecl _ none, _ => by simp [Stmt.sites]
  | .returnValue _ none, _ => by simp [Stmt.sites, Site.IsNamed]
  | .expression value, proper => Expr.isNamed_sites place value proper
  | .print value, proper => Expr.isNamed_sites place value proper
  | .varDecl _ (some initial), proper => Expr.isNamed_sites _ initial proper.2
  | .block body, proper => by
    rw [Stmt.sites, List.forall_mem_cons]
    exact ⟨Stmt.named_localsAll names body proper, Stmt.isNamed_sitesAll _ body proper⟩
  | .ifElse condition whenTrue none, proper => by
    rw [Stmt.sites, List.forall_mem_append]
    exact ⟨Expr.isNamed_sites place condition proper.1,
      Stmt.isNamed_sites place whenTrue proper.2.1⟩
  | .ifElse condition whenTrue (some whenFalse), proper => by
    rw [Stmt.sites, List.forall_mem_append, List.forall_mem_append]
    exact ⟨⟨Expr.isNamed_sites place condition proper.1,
      Stmt.isNamed_sites place whenTrue proper.2.1.1⟩,
      Stmt.isNamed_sites _ whenFalse proper.2.2.1⟩
  | .whileLoop condition body, proper => by
    rw [Stmt.sites, List.forall_mem_append]
    exact ⟨Expr.isNamed_sites place condition proper.1,
      Stmt.isNamed_sites place body proper.2.1⟩
  | .funDecl (.mk _ definition), proper => Function.isNamed_sites _ _ definition proper.2
  | .returnValue _ (some value), proper => by
    rw [Stmt.sites, List.forall_mem_cons]
    exact ⟨trivial, Expr.isNamed_sites place value proper⟩
  | .classDecl _ superclass methods classMethods, proper => by
    rw [Stmt.sites, List.forall_mem_append, List.forall_mem_append]
    refine ⟨⟨?_, NamedFunction.isNamed_sitesAll _ classMethods proper.2.2.2⟩,
      NamedFunction.isNamed_sitesAll _ methods proper.2.2.1⟩
    cases superclass <;> simp [Site.IsNamed]

theorem Stmt.isNamed_sitesAll (place : Place) : ∀ statements : List Stmt,
    Stmt.AreProper names statements → ∀ site ∈ Stmt.sitesAll place statements,
      site.IsNamed names
  | [], _ => by simp [Stmt.sitesAll]
  | first :: others, proper => by
    rw [Stmt.sitesAll, List.forall_mem_append]
    exact ⟨Stmt.isNamed_sites place first proper.1, Stmt.isNamed_sitesAll _ others proper.2⟩

end

end

/-- The uses of a local with a name from the text are those of variables. -/
theorem Occurrence.isOfVariable_of_isPlainName {use : Occurrence} (plain : IsPlainName use.name) :
    use.IsOfVariable := by
  constructor
  · intro isThis
    rw [isThis, IsPlainName] at plain
    exact absurd plain (by decide)
  · intro isSuper
    rw [isSuper, IsPlainName] at plain
    exact absurd plain (by decide)

/-- Every rule is about some kind of sites. -/
theorem Program.isWellScoped_iff (program : List Stmt)
    (named : ∀ site ∈ sites program, site.IsNamed IsPlainName) :
    IsWellScoped program ↔ ∀ site ∈ sites program, site.IsSound := by
  constructor
  · rintro rules ⟨place, part⟩ member
    cases part with
    | read name => exact rules.initial place name member
    | this =>
      rcases rules.this place member with ⟨inherits, around⟩
      simp [Site.IsSound, around, Surroundings.allowsThis]
    | super => simp [Site.IsSound, rules.super place member, Surroundings.allowsSuper]
    | returns hasValue => exact rules.returns place hasValue member
    | subclass name superclass => exact rules.subclass place name superclass member
    | parameters names => exact rules.parameters place names member
    | body locals uses =>
      refine ⟨rules.distinct place locals uses member, fun slot declared here => ?_⟩
      rcases rules.used place locals uses member slot declared here with
        ⟨use, isIn, -, sameName, means⟩
      exact ⟨use, isIn, means, sameName⟩
  · intro sound
    constructor
    · exact fun place names member => sound _ member
    · exact fun place locals uses member => (sound _ member).1
    · intro place locals uses member slot declared here
      rcases (sound _ member).2 slot declared here with ⟨use, isIn, means, sameName⟩
      have plain := named _ member declared (List.mem_of_getElem? here)
      rw [← sameName] at plain
      exact ⟨use, isIn, Occurrence.isOfVariable_of_isPlainName plain, sameName, means⟩
    · exact fun place name member => sound _ member
    · exact fun place hasValue member => sound _ member
    · intro place member
      have allows : place.around.allowsThis := sound _ member
      cases around : place.around with
      | method inherits => exact ⟨inherits, rfl⟩
      | outside => simp [around, Surroundings.allowsThis] at allows
      | classMethod => simp [around, Surroundings.allowsThis] at allows
    · intro place member
      have allows : place.around.allowsSuper := sound _ member
      cases around : place.around with
      | method inherits => simpa [around, Surroundings.allowsSuper] using allows
      | outside => simp [around, Surroundings.allowsSuper] at allows
      | classMethod => simp [around, Surroundings.allowsSuper] at allows
    · exact fun place name superclass member => sound _ member

/--
Whatever else is wrong with a program that was read: resolving it reports nothing exactly if it
obeys all rules on scopes.  No name is spelt like a reserved word, as in all tokens of source texts
(`Item.named_scan`).
-/
theorem resolve_errors_eq_nil_iff (firstId : Nat) (tokens : List Token)
    (plain : Grammar.Named IsPlainName tokens) :
    (resolve (Grammar.parse firstId tokens).statements).errors = [] ↔
      Program.IsWellScoped (Grammar.parse firstId tokens).statements := by
  have proper := (Grammar.parse_builds IsPlainName firstId tokens plain).1
  have named := Stmt.isNamed_sitesAll IsPlainName .program _ proper
  rw [errors_resolve, Program.isWellScoped_iff _ named]

/-- A block with a variable whose value is a function that names it. -/
def selfReference : List Token :=
  Item.tokens (Item.scan "\x7b var f = fun (n) \x7b return f; \x7d; print f; \x7d")

/-- A parameter need not be used, and a function may name the variable that it is the value of. -/
theorem isWellScoped_selfReference : Grammar.Named IsPlainName selfReference ∧
    Program.IsWellScoped (Grammar.parse 0 selfReference).statements := by
  have plain : Grammar.Named IsPlainName selfReference := Item.named_scan _
  constructor
  · exact plain
  · apply (resolve_errors_eq_nil_iff 0 selfReference plain).mp
    cbv

end Lox
