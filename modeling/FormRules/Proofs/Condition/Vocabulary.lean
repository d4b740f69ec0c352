-- SUMMARY: Registries of built-in functions, and an induction over the calls that they compile.
import FormRules.Condition.Compilation
import FormRules.Proofs.Condition.Truth

/-!
# Vocabularies

A vocabulary says which built-in function a name stands for. A registry speaks it when that is all
that the registry knows, as the default registry and any made from it by aliases do. A call that
such a registry compiles is an equality of two operands, or a join of calls that it compiles too:
`Call.compile_induction` packages this once, for whatever is to be shown of compiled calls.
-/

namespace FormRules

/-! ## Names of built-in functions -/

namespace Builtin

/-- The names of the built-in functions. -/
def names : List String := ["is", "and", "or"]

@[simp] theorem ofName?_name (b : Builtin) : ofName? b.name = some b := by
  cases b <;> rfl

theorem name_injective : Function.Injective name := by
  intro b b' h
  apply Option.some.inj
  rw [← ofName?_name b, h, ofName?_name]

/-- A built-in function has one name. -/
theorem eq_name_of_ofName? {func : String} {b : Builtin} (h : ofName? func = some b) :
    func = b.name := by
  unfold ofName? at h
  split at h
  · next hfunc => cases h; exact hfunc
  · split at h
    · next hfunc => cases h; exact hfunc
    · split at h
      · next hfunc => cases h; exact hfunc
      · cases h

theorem name_mem_names (b : Builtin) : b.name ∈ names := by
  cases b <;> simp [names, name]

theorem ofName?_eq_none_iff {func : String} : ofName? func = none ↔ func ∉ names := by
  simp only [ofName?, names, List.mem_cons, List.not_mem_nil, or_false]
  split
  · simp [*]
  · split
    · simp [*]
    · split <;> simp [*]

end Builtin

/-! ## Registries of built-in functions -/

/-- The built-in function that a name stands for. -/
abbrev Vocabulary := String → Option Builtin

/-- Let a name stand for a built-in function. The name of no built-in function changes nothing. -/
def Vocabulary.withAlias (vocabulary : Vocabulary) (name builtin : String) : Vocabulary :=
  match Builtin.ofName? builtin with
  | some b => fun other => if other = name then some b else vocabulary other
  | none => vocabulary

namespace Registry

/-- A registry knows the names of a vocabulary, with the parsers of what they stand for. -/
def Speaks (registry : Registry) (vocabulary : Vocabulary) : Prop :=
  ∀ name, registry.get? name = (vocabulary name).map Builtin.parser

/-- Make aliases one after the other: each of a name and of a built-in function. -/
def withAliases (registry : Registry) : List (String × String) → Registry
  | [] => registry
  | (name, builtin) :: rest => (registry.withAlias name builtin).withAliases rest

theorem default_speaks : default.Speaks Builtin.ofName? := by
  intro name
  simp only [default, Table.ofList, List.map_cons, List.map_nil, Table.insertAll_cons,
    Table.insertAll_nil, Table.get?_insert, Table.get?_empty, Builtin.ofName?, Builtin.name]
  by_cases his : name = "is"
  · simp [his]
  · by_cases hand : name = "and"
    · simp [hand]
    · by_cases hor : name = "or" <;> simp [his, hand, hor]

theorem Speaks.withAlias {registry : Registry} {vocabulary : Vocabulary}
    (h : registry.Speaks vocabulary) (name builtin : String) :
    (registry.withAlias name builtin).Speaks (vocabulary.withAlias name builtin) := by
  intro other
  cases hb : Builtin.ofName? builtin with
  | none => simpa [Registry.withAlias, Vocabulary.withAlias, hb] using h other
  | some b =>
    simp only [Registry.withAlias, Vocabulary.withAlias, hb, Table.get?_insert]
    split
    · rfl
    · exact h other

/-- A registry stays one of built-in functions, whatever aliases are made. -/
theorem Speaks.withAliases {registry : Registry} {vocabulary : Vocabulary}
    (h : registry.Speaks vocabulary) (aliases : List (String × String)) :
    ∃ vocabulary', (registry.withAliases aliases).Speaks vocabulary' := by
  induction aliases generalizing registry vocabulary with
  | nil => exact ⟨vocabulary, h⟩
  | cons a rest ih => exact ih (h.withAlias a.1 a.2)

end Registry

/-! ## What the built-in parsers accept -/

namespace Builtin

theorem operandPair_eq_ok {func : String} {args : List ParsedArgument} {l r : Expr} :
    operandPair func args = .ok (l, r) ↔ args = [.operand l, .operand r] := by
  match args with
  | [] => simp [operandPair]
  | [_] => simp [operandPair]
  | [a, b] => cases a <;> cases b <;> simp [operandPair, wantOperand]
  | _ :: _ :: _ :: _ => simp [operandPair]

theorem conditions_eq_ok {func : String} {index : Nat} {args : List ParsedArgument}
    {es : List Expr} : conditions func index args = .ok es ↔ args = es.map .condition := by
  induction args generalizing index es with
  | nil => cases es <;> simp [conditions]
  | cons a rest ih =>
    cases a with
    | operand e => cases es <;> simp [conditions]
    | condition e =>
      rw [conditions, map_eq_ok]
      constructor
      · rintro ⟨es', hes', rfl⟩
        rw [ih.mp hes', List.map_cons]
      · intro h
        cases es with
        | nil => simp at h
        | cons e' es' =>
          obtain ⟨rfl, hrest⟩ : e = e' ∧ rest = es'.map .condition := by simpa using h
          exact ⟨es', ih.mpr hrest, rfl⟩

/-- What conditions have and joining keeps, their join has too. -/
theorem joined_induction {P : Expr → Prop} {join : Expr → Expr → Expr} {empty : Bool}
    (hempty : P (.literal (.bool empty))) (hjoin : ∀ l r, P l → P r → P (join l r))
    {es : List Expr} (h : ∀ e ∈ es, P e) : P (joined join empty es) := by
  cases es with
  | nil => exact hempty
  | cons first rest =>
    obtain ⟨hfirst, hrest⟩ := List.forall_mem_cons.mp h
    rw [joined]
    induction rest generalizing first with
    | nil => exact hfirst
    | cons next rest ih =>
      obtain ⟨hnext, hrest⟩ := List.forall_mem_cons.mp hrest
      refine ih (join first next) ?_ (hjoin first next hfirst hnext) hrest
      exact List.forall_mem_cons.mpr ⟨hjoin first next hfirst hnext, hrest⟩

/-- Let a reading of expressions turn `join` into an associative operation, of which `empty` is the
neutral element. It reads a join from the left as that operation over all members from the right. -/
theorem joined_eq_foldr {join : Expr → Expr → Expr} {op : Bool → Bool → Bool} {empty : Bool}
    {f : Expr → Bool} (hassoc : ∀ a b c, op (op a b) c = op a (op b c))
    (hneutral : ∀ a, op a empty = a) (hempty : f (.literal (.bool empty)) = empty)
    (hjoin : ∀ l r, f (join l r) = op (f l) (f r)) (es : List Expr) :
    f (joined join empty es) = es.foldr (fun e rest => op (f e) rest) empty := by
  cases es with
  | nil => exact hempty
  | cons first rest =>
    rw [joined, List.foldr_cons]
    -- the join so far takes the place of the first member
    induction rest generalizing first with
    | nil => exact (hneutral _).symm
    | cons next rest ih => rw [List.foldl_cons, ih, hjoin, hassoc, List.foldr_cons]

/-- A reading that takes `and` for conjunction reads a join by `and` as all of its members. -/
theorem joined_and_eq_all {f : Expr → Bool} (hempty : f (.literal (.bool true)) = true)
    (hjoin : ∀ l r, f (.and l r) = (f l && f r)) (es : List Expr) :
    f (joined .and true es) = es.all f := by
  rw [joined_eq_foldr Bool.and_assoc Bool.and_true hempty hjoin]
  induction es with
  | nil => rfl
  | cons e rest ih => rw [List.foldr_cons, ih, List.all_cons]

/-- A reading that takes `or` for disjunction reads a join by `or` as any of its members. -/
theorem joined_or_eq_any {f : Expr → Bool} (hempty : f (.literal (.bool false)) = false)
    (hjoin : ∀ l r, f (.or l r) = (f l || f r)) (es : List Expr) :
    f (joined .or false es) = es.any f := by
  rw [joined_eq_foldr Bool.or_assoc Bool.or_false hempty hjoin]
  induction es with
  | nil => rfl
  | cons e rest ih => rw [List.foldr_cons, ih, List.any_cons]

/-- Each member may be read in another way that comes to the same. -/
theorem joined_and {f : Expr → Bool} {g : Call → Bool} (hempty : f (.literal (.bool true)) = true)
    (hjoin : ∀ l r, f (.and l r) = (f l && f r)) {members : List (Call × Expr)}
    (h : ∀ m ∈ members, f m.2 = g m.1) :
    f (joined .and true (members.map (·.2))) = members.all fun m => g m.1 := by
  rw [joined_and_eq_all hempty hjoin, List.all_map, Bool.eq_iff_iff, List.all_eq_true,
    List.all_eq_true]
  exact forall₂_congr fun m hm => by rw [Function.comp_apply, h m hm]

theorem joined_or {f : Expr → Bool} {g : Call → Bool} (hempty : f (.literal (.bool false)) = false)
    (hjoin : ∀ l r, f (.or l r) = (f l || f r)) {members : List (Call × Expr)}
    (h : ∀ m ∈ members, f m.2 = g m.1) :
    f (joined .or false (members.map (·.2))) = members.any fun m => g m.1 := by
  rw [joined_or_eq_any hempty hjoin, List.any_map, Bool.eq_iff_iff, List.any_eq_true,
    List.any_eq_true]
  exact exists_congr fun m => and_congr_right fun hm => by rw [Function.comp_apply, h m hm]

end Builtin

/-! ## Compiled arguments -/

section

variable {registry : Registry}

theorem Argument.compile_eq_operand {a : Argument} {e : Expr} :
    a.compile registry = .ok (.operand e) ↔ ∃ o : Operand, a = .operand o ∧ o.toExpr = e := by
  cases a with
  | call c => cases hc : c.compile registry <;> simp [Argument.compile, hc]
  | operand o => simp [Argument.compile]

theorem Argument.compile_eq_condition {a : Argument} {e : Expr} :
    a.compile registry = .ok (.condition e) ↔ ∃ c, a = .call c ∧ c.compile registry = .ok e := by
  cases a with
  | call c => cases hc : c.compile registry <;> simp [Argument.compile, hc]
  | operand o => simp [Argument.compile]

theorem compileArguments_eq_nil {args : List Argument} :
    compileArguments registry args = .ok [] ↔ args = [] := by
  cases args with
  | nil => simp [compileArguments]
  | cons a rest =>
    cases ha : a.compile registry with
    | error e => simp [compileArguments, ha]
    | ok p => cases hr : compileArguments registry rest <;> simp [compileArguments, ha, hr]

theorem compileArguments_eq_cons {args : List Argument} {p : ParsedArgument}
    {ps : List ParsedArgument} :
    compileArguments registry args = .ok (p :: ps) ↔
      ∃ a rest, args = a :: rest ∧ a.compile registry = .ok p
        ∧ compileArguments registry rest = .ok ps := by
  constructor
  · intro h
    cases args with
    | nil => simp [compileArguments] at h
    | cons a rest =>
      cases ha : a.compile registry with
      | error e => simp [compileArguments, ha] at h
      | ok p =>
        cases hr : compileArguments registry rest with
        | error e => simp [compileArguments, ha, hr] at h
        | ok ps =>
          obtain ⟨rfl, rfl⟩ : p = _ ∧ ps = _ := by simpa [compileArguments, ha, hr] using h
          exact ⟨a, rest, rfl, ha, hr⟩
  · rintro ⟨a, rest, rfl, ha, hr⟩
    simp [compileArguments, ha, hr]

theorem compileArguments_operands {args : List Argument} {l r : Expr}
    (h : compileArguments registry args = .ok [.operand l, .operand r]) :
    ∃ ol or : Operand, args = [.operand ol, .operand or] ∧ ol.toExpr = l ∧ or.toExpr = r := by
  obtain ⟨a, rest, rfl, ha, hrest⟩ := compileArguments_eq_cons.mp h
  obtain ⟨b, last, rfl, hb, hlast⟩ := compileArguments_eq_cons.mp hrest
  obtain ⟨ol, rfl, hl⟩ := Argument.compile_eq_operand.mp ha
  obtain ⟨or, rfl, hr⟩ := Argument.compile_eq_operand.mp hb
  obtain rfl := compileArguments_eq_nil.mp hlast
  exact ⟨ol, or, rfl, hl, hr⟩

/-- Arguments that are conditions are calls, each with the expression that it compiles to. -/
theorem compileArguments_conditions {args : List Argument} {es : List Expr}
    (h : compileArguments registry args = .ok (es.map .condition)) :
    ∃ members : List (Call × Expr), args = members.map (fun m => .call m.1)
      ∧ es = members.map (·.2) ∧ ∀ m ∈ members, m.1.compile registry = .ok m.2 := by
  induction es generalizing args with
  | nil => exact ⟨[], by simpa using compileArguments_eq_nil.mp h, rfl, by simp⟩
  | cons e es ih =>
    obtain ⟨a, rest, rfl, ha, hrest⟩ := compileArguments_eq_cons.mp h
    obtain ⟨c, rfl, hc⟩ := Argument.compile_eq_condition.mp ha
    obtain ⟨members, rfl, rfl, hm⟩ := ih hrest
    exact ⟨(c, e) :: members, rfl, rfl, List.forall_mem_cons.mpr ⟨hc, hm⟩⟩

end

/-! ## Compiled calls -/

section

variable {registry : Registry} {vocabulary : Vocabulary}

/-- A compiled call has a known name, its arguments are compiled, and the parser accepts them. -/
theorem Call.compile_eq_ok (hs : registry.Speaks vocabulary) {c : Call} {e : Expr}
    (h : c.compile registry = .ok e) :
    ∃ b parsed, vocabulary c.func = some b ∧ compileArguments registry c.args = .ok parsed
      ∧ b.parser parsed = .ok e := by
  obtain ⟨func, args⟩ := c
  rw [Call.compile, hs func] at h
  cases hb : vocabulary func with
  | none => simp [hb] at h
  | some b =>
    cases hp : compileArguments registry args with
    | error err => simp [hb, hp] at h
    | ok parsed => exact ⟨b, parsed, rfl, rfl, by simpa [hb, hp] using h⟩

/-- The shapes of a compiled call: an equality of operands, or a join of calls that are compiled. -/
theorem Call.compile_cases (hs : registry.Speaks vocabulary) {c : Call} {e : Expr}
    (h : c.compile registry = .ok e) :
    (∃ l r : Operand, vocabulary c.func = some .is ∧ c.args = [.operand l, .operand r]
      ∧ e = .equal l.toExpr r.toExpr)
    ∨ ∃ members : List (Call × Expr), c.args = members.map (fun m => .call m.1)
      ∧ (∀ m ∈ members, m.1.compile registry = .ok m.2)
      ∧ (vocabulary c.func = some .and ∧ e = Builtin.joined .and true (members.map (·.2))
        ∨ vocabulary c.func = some .or ∧ e = Builtin.joined .or false (members.map (·.2))) := by
  obtain ⟨b, parsed, hb, hargs, hparse⟩ := Call.compile_eq_ok hs h
  cases b with
  | is =>
    obtain ⟨⟨l, r⟩, hpair, rfl⟩ := map_eq_ok.mp hparse
    rw [Builtin.operandPair_eq_ok.mp hpair] at hargs
    obtain ⟨ol, or, ho, rfl, rfl⟩ := compileArguments_operands hargs
    exact .inl ⟨ol, or, hb, ho, rfl⟩
  | and =>
    obtain ⟨es, hes, rfl⟩ := map_eq_ok.mp hparse
    rw [Builtin.conditions_eq_ok.mp hes] at hargs
    obtain ⟨members, ha, rfl, hm⟩ := compileArguments_conditions hargs
    exact .inr ⟨members, ha, hm, .inl ⟨hb, rfl⟩⟩
  | or =>
    obtain ⟨es, hes, rfl⟩ := map_eq_ok.mp hparse
    rw [Builtin.conditions_eq_ok.mp hes] at hargs
    obtain ⟨members, ha, rfl, hm⟩ := compileArguments_conditions hargs
    exact .inr ⟨members, ha, hm, .inr ⟨hb, rfl⟩⟩

/-- A call of `is` on two operands is compiled to their equality. -/
theorem Call.compile_is (hs : registry.Speaks vocabulary) {func : String}
    (hb : vocabulary func = some .is) (l r : Operand) :
    Call.compile registry ⟨func, [.operand l, .operand r]⟩ = .ok (.equal l.toExpr r.toExpr) := by
  simp [Call.compile, hs func, hb, compileArguments, Argument.compile, Builtin.parser,
    Builtin.operandPair, Builtin.wantOperand]

theorem Call.sizeOf_lt_of_mem {c c' : Call} (h : .call c' ∈ c.args) : sizeOf c' < sizeOf c := by
  obtain ⟨func, args⟩ := c
  have := List.sizeOf_lt_of_mem h
  simp only [Argument.call.sizeOf_spec, Call.mk.sizeOf_spec] at this ⊢
  omega

/-- Induction over compiled calls: one case for the equality of two operands, and one each for the
conjunction and the disjunction of any number of calls. -/
theorem Call.compile_induction (hs : registry.Speaks vocabulary) {motive : Call → Expr → Prop}
    (is : ∀ func (l r : Operand), vocabulary func = some .is →
      motive ⟨func, [.operand l, .operand r]⟩ (.equal l.toExpr r.toExpr))
    (and : ∀ func (members : List (Call × Expr)), vocabulary func = some .and →
      (∀ m ∈ members, motive m.1 m.2) →
      motive ⟨func, members.map fun m => .call m.1⟩ (Builtin.joined .and true (members.map (·.2))))
    (or : ∀ func (members : List (Call × Expr)), vocabulary func = some .or →
      (∀ m ∈ members, motive m.1 m.2) →
      motive ⟨func, members.map fun m => .call m.1⟩ (Builtin.joined .or false (members.map (·.2))))
    (c : Call) (e : Expr) (h : c.compile registry = .ok e) : motive c e := by
  obtain ⟨l, r, hb, hargs, rfl⟩ | ⟨members, hargs, hm, hjoin⟩ := Call.compile_cases hs h
  · obtain ⟨func, args⟩ := c
    subst hargs
    exact is func l r hb
  · have ih : ∀ m ∈ members, motive m.1 m.2 := fun m hmem =>
      have hlt : sizeOf m.1 < sizeOf c :=
        Call.sizeOf_lt_of_mem (by rw [hargs]; exact List.mem_map.mpr ⟨m, hmem, rfl⟩)
      Call.compile_induction hs is and or m.1 m.2 (hm m hmem)
    obtain ⟨func, args⟩ := c
    subst hargs
    obtain ⟨hb, rfl⟩ | ⟨hb, rfl⟩ := hjoin
    · exact and func members hb ih
    · exact or func members hb ih
termination_by sizeOf c
decreasing_by exact hlt

theorem Operand.isLeaf_toExpr (o : Operand) : o.toExpr.IsLeaf := by
  unfold Operand.toExpr
  split
  · exact .literal _
  · exact .field _
  · exact .literal _

/-- What a registry of built-in functions compiles is a condition. -/
theorem Call.isCondition_of_compile (hs : registry.Speaks vocabulary) {c : Call} {e : Expr}
    (h : c.compile registry = .ok e) : e.IsCondition := by
  refine Call.compile_induction hs (motive := fun _ e => e.IsCondition) ?is ?and ?or c e h
  case is =>
    intro _ l r _
    exact .equal l.isLeaf_toExpr r.isLeaf_toExpr
  case and =>
    intro _ members _ ih
    exact Builtin.joined_induction (.constant true) (fun _ _ => .and) (List.forall_mem_map.mpr ih)
  case or =>
    intro _ members _ ih
    exact Builtin.joined_induction (.constant false) (fun _ _ => .or) (List.forall_mem_map.mpr ih)

end

end FormRules
