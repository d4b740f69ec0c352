-- SUMMARY: Aliases rename: calls mean under them what renamed calls mean without them.
import FormRules.Proofs.Condition.Vocabulary
import Mathlib.Data.List.Induction

/-!
# Aliases as renamings

An alias makes a name stand for a built-in function. Of several aliases of one name the last one
counts, and those for the name of no built-in function do not count at all (`aliasedName`). A call is
compiled with aliases exactly as it is without them once every name in it, at any depth, is replaced
by what it stands for (`aliases_rename_calls`): to the same expression or with the same error.
-/

namespace FormRules

/-! ## Renaming -/

mutual

/-- Replace the name of every function that a call applies, at any depth. -/
def Call.rename (rename : String → String) : Call → Call
  | ⟨func, args⟩ => ⟨rename func, renameArguments rename args⟩

def Argument.rename (rename : String → String) : Argument → Argument
  | .call c => .call (c.rename rename)
  | .operand o => .operand o

def renameArguments (rename : String → String) : List Argument → List Argument
  | [] => []
  | a :: rest => a.rename rename :: renameArguments rename rest

end

section

variable {registry other : Registry} {rename : String → String}

mutual

/-- A registry that knows each name as another one knows its replacement compiles a call as that one
compiles the renamed call. Names that it does not know must stay, since errors show them. -/
theorem Call.compile_rename (hparser : ∀ name, registry.get? name = other.get? (rename name))
    (hunknown : ∀ name, registry.get? name = none → rename name = name) :
    ∀ c : Call, (c.rename rename).compile other = c.compile registry
  | ⟨func, args⟩ => by
    have hargs := compileArguments_rename hparser hunknown args
    rw [Call.rename, Call.compile, Call.compile, hargs, ← hparser func]
    cases hfunc : registry.get? func with
    | none => rw [hunknown func hfunc]
    | some parser => rfl

theorem Argument.compile_rename (hparser : ∀ name, registry.get? name = other.get? (rename name))
    (hunknown : ∀ name, registry.get? name = none → rename name = name) :
    ∀ a : Argument, (a.rename rename).compile other = a.compile registry
  | .call c => by
    rw [Argument.rename, Argument.compile, Argument.compile, c.compile_rename hparser hunknown]
  | .operand o => rfl

theorem compileArguments_rename (hparser : ∀ name, registry.get? name = other.get? (rename name))
    (hunknown : ∀ name, registry.get? name = none → rename name = name) :
    ∀ args : List Argument,
      compileArguments other (renameArguments rename args) = compileArguments registry args
  | [] => rfl
  | a :: rest => by
    rw [renameArguments, compileArguments, compileArguments, a.compile_rename hparser hunknown,
      compileArguments_rename hparser hunknown rest]

end

end

/-! ## Aliases -/

/-- The built-in function for which the last alias of a name stands, and the name itself if it has
no alias for a built-in function. -/
def aliasedName (aliases : List (String × String)) (name : String) : String :=
  match (aliases.filter fun a => a.1 = name && a.2 ∈ Builtin.names).getLast? with
  | some (_, builtin) => builtin
  | none => name

theorem aliasedName_concat (aliases : List (String × String)) (user builtin name : String) :
    aliasedName (aliases ++ [(user, builtin)]) name =
      if user = name ∧ builtin ∈ Builtin.names then builtin else aliasedName aliases name := by
  unfold aliasedName
  rw [List.filter_append]
  by_cases hcounts : user = name ∧ builtin ∈ Builtin.names
  · simp [hcounts]
  · simp [hcounts]

/-- The last alias of a built-in function counts, also for a built-in name; the name of another alias
is none. -/
example :
    let aliases := [("equals", "and"), ("equals", "is"), ("is", "or"), ("equals", "all"),
      ("same", "equals")]
    ["equals", "is", "same"].map (aliasedName aliases) = ["is", "or", "same"] := by
  decide

/-- A name is replaced by that of a built-in function or not at all. -/
theorem aliasedName_eq_or_mem (aliases : List (String × String)) (name : String) :
    aliasedName aliases name = name ∨ aliasedName aliases name ∈ Builtin.names := by
  unfold aliasedName
  split
  · next user builtin hlast =>
    have hcounts := (List.mem_filter.mp (List.mem_of_getLast? hlast)).2
    simp only [Bool.and_eq_true, decide_eq_true_eq] at hcounts
    exact .inr hcounts.2
  · exact .inl rfl

namespace Registry

theorem withAliases_concat (registry : Registry) (aliases : List (String × String))
    (user builtin : String) :
    registry.withAliases (aliases ++ [(user, builtin)])
      = (registry.withAliases aliases).withAlias user builtin := by
  induction aliases generalizing registry with
  | nil => rfl
  | cons a rest ih => exact ih (registry.withAlias a.1 a.2)

/-- With aliases a name has the parser that the default registry has for what it stands for. -/
theorem get?_withAliases (aliases : List (String × String)) (name : String) :
    (default.withAliases aliases).get? name = default.get? (aliasedName aliases name) := by
  induction aliases using List.reverseRecOn with
  | nil => rfl
  | append_singleton aliases a ih =>
    obtain ⟨user, builtin⟩ := a
    rw [withAliases_concat, aliasedName_concat, withAlias]
    cases hb : Builtin.ofName? builtin with
    | none =>
      have hother : builtin ∉ Builtin.names := Builtin.ofName?_eq_none_iff.mp hb
      simpa [hother] using ih
    | some b =>
      obtain rfl := Builtin.eq_name_of_ofName? hb
      by_cases huser : user = name
      · subst huser
        simp [b.name_mem_names, default_speaks b.name]
      · simpa [huser, Table.get?_insert_of_ne _ (Ne.symm huser)] using ih

end Registry

/-- A call is compiled with aliases exactly as the call is without them in which every name, at any
depth, is replaced by the built-in function of its last alias, and left alone if it has none. -/
theorem aliases_rename_calls (aliases : List (String × String)) (c : Call) :
    c.compile (Registry.default.withAliases aliases)
      = (c.rename (aliasedName aliases)).compile Registry.default := by
  symm
  apply c.compile_rename (Registry.get?_withAliases aliases)
  intro name hunknown
  apply (aliasedName_eq_or_mem aliases name).resolve_right
  intro hbuiltin
  rw [Registry.get?_withAliases, Registry.default_speaks, Option.map_eq_none_iff] at hunknown
  exact Builtin.ofName?_eq_none_iff.mp hunknown hbuiltin

end FormRules
