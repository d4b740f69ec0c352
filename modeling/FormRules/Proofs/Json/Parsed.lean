-- SUMMARY: What the parser makes of any text, and when that mirrors a value.
import FormRules.Proofs.Json.Faithful

/-!
# Parsed nodes

Whatever the text is, the parser marks every element of an array after which others come, and no
element that the end of the array follows. So if a text is JSON and repeats no key, the node that it
holds mirrors a value, whose sorted form the text is read as.
-/

namespace FormRules.Json

/-! ## Marked elements -/

/-- The mark of an element fits to what comes after it; where the text breaks off any mark does. -/
def Items.Follow (surplus : Option Fault) : Items → Prop
  | .closed _ => surplus = none
  | .broken _ _ => True
  | .more _ _ _ _ => surplus ≠ none

mutual

/-- The marks of all elements in a node fit to what comes after them. -/
def Node.IsMarked : Node → Prop
  | .scalar _ _ => True
  | .list _ _ found => found.AreMarked
  | .object _ _ found => found.AreMarked
  | .broken _ _ => True

def Items.AreMarked : Items → Prop
  | .closed _ => True
  | .broken _ _ => True
  | .more value _ surplus rest => value.IsMarked ∧ rest.Follow surplus ∧ rest.AreMarked

def Members.AreMarked : Members → Prop
  | .closed _ => True
  | .broken _ _ => True
  | .unvalued _ _ _ => True
  | .more _ _ value _ rest => value.IsMarked ∧ rest.AreMarked

end

namespace Parse

theorem isMarked_word (result : Scalar) (letters : List Char) (c : Cursor) :
    (word result letters c).1.IsMarked := by
  induction letters generalizing c with
  | nil => trivial
  | cons letter letters ih =>
    rw [word]
    split
    · trivial
    · split
      · exact ih _
      · trivial

theorem isMarked_numeral (c : Cursor) : (numeral c).1.IsMarked := by
  rw [numeral]
  split <;> trivial

theorem isMarked_quotation (c : Cursor) : (quotation c).1.IsMarked := by
  rw [quotation]
  split <;> trivial

/-- What comes after a comma is no end of the array. -/
theorem follow_item (fuel depth : Nat) (c : Cursor) (f : Fault) :
    (item fuel depth c).1.Follow (some f) := by
  cases fuel with
  | zero => rw [item]; trivial
  | succ fuel =>
    rw [item]
    split
    · simp [Items.Follow]
    · dsimp only
      split
      · simp [Items.Follow]
      · simp [Items.Follow]
      · split <;> simp [Items.Follow]
      · simp [Items.Follow]

mutual

theorem isMarked_value (fuel depth : Nat) (c : Cursor) : (value fuel depth c).1.IsMarked :=
  match fuel with
  | 0 => by rw [value]; trivial
  | fuel + 1 => by
    rw [value]
    split
    · trivial
    · next first rest _ =>
      dsimp only
      split
      · exact isMarked_word _ _ _
      split
      · exact isMarked_word _ _ _
      split
      · exact isMarked_word _ _ _
      split
      · exact isMarked_quotation _
      split
      · exact isMarked_numeral _
      split
      · exact areMarked_items fuel (depth + 1) _
      split
      · exact areMarked_members fuel (depth + 1) _
      · trivial

theorem areMarked_items (fuel depth : Nat) (c : Cursor) : (items fuel depth c).1.AreMarked :=
  match fuel with
  | 0 => by rw [items]; trivial
  | fuel + 1 => by
    rw [items]
    split
    · trivial
    · trivial
    · exact areMarked_item fuel depth _

theorem areMarked_item (fuel depth : Nat) (c : Cursor) : (item fuel depth c).1.AreMarked :=
  match fuel with
  | 0 => by rw [item]; trivial
  | fuel + 1 => by
    have hvalue := isMarked_value fuel depth c
    rw [item]
    split
    · next found heq =>
      rw [heq] at hvalue
      exact ⟨hvalue, trivial, trivial⟩
    · next found next heq =>
      rw [heq] at hvalue
      dsimp only
      split
      · exact ⟨hvalue, trivial, trivial⟩
      · exact ⟨hvalue, rfl, trivial⟩
      · split
        · exact ⟨hvalue, trivial, trivial⟩
        · exact ⟨hvalue, trivial, trivial⟩
        · exact ⟨hvalue, follow_item fuel depth _ _, areMarked_item fuel depth _⟩
      · exact ⟨hvalue, trivial, trivial⟩

theorem areMarked_members (fuel depth : Nat) (c : Cursor) : (members fuel depth c).1.AreMarked :=
  match fuel with
  | 0 => by rw [members]; trivial
  | fuel + 1 => by
    rw [members]
    split
    · trivial
    · trivial
    · exact areMarked_member fuel depth _
    · trivial

theorem areMarked_member (fuel depth : Nat) (c : Cursor) : (member fuel depth c).1.AreMarked :=
  match fuel with
  | 0 => by rw [member]; trivial
  | fuel + 1 => by
    rw [member]
    split
    · trivial
    · next key next _ =>
      dsimp only
      split
      · trivial
      · next rest _ =>
        have hvalue := isMarked_value fuel depth ⟨rest, next.skipBlanks.offset + 1⟩
        split
        · next found heq =>
          rw [heq] at hvalue
          exact ⟨hvalue, trivial⟩
        · next found next heq =>
          rw [heq] at hvalue
          split
          · exact ⟨hvalue, trivial⟩
          · exact ⟨hvalue, trivial⟩
          · split
            · exact ⟨hvalue, trivial⟩
            · exact ⟨hvalue, areMarked_member fuel depth _⟩
            · exact ⟨hvalue, trivial⟩
            · exact ⟨hvalue, trivial⟩
          · exact ⟨hvalue, trivial⟩
      · trivial
      · trivial

end

end Parse

theorem Source.isMarked_root (source : String) : (Source.ofText source).root.IsMarked := by
  rw [Source.ofText]
  have hvalue := Parse.isMarked_value (3 * (Cursor.ofText source).rest.length + 3) 0
    (Cursor.ofText source)
  dsimp only
  split
  · next root heq =>
    rw [heq] at hvalue
    exact hvalue
  · next root next heq =>
    rw [heq] at hvalue
    exact hvalue

/-! ## Distinct keys -/

/-- The keys of an object, in the order of the text. -/
def Members.keys : Members → List String
  | .closed _ => []
  | .broken _ _ => []
  | .unvalued (.ok key) _ _ => [key]
  | .unvalued (.error _) _ _ => []
  | .more (.ok key) _ _ _ rest => key :: rest.keys
  | .more (.error _) _ _ _ rest => rest.keys

mutual

/-- No object in a node repeats a key. -/
def Node.HasDistinctKeys : Node → Prop
  | .scalar _ _ => True
  | .list _ _ found => found.HaveDistinctKeys
  | .object _ _ found => found.keys.Nodup ∧ found.HaveDistinctKeys
  | .broken _ _ => True

def Items.HaveDistinctKeys : Items → Prop
  | .closed _ => True
  | .broken _ _ => True
  | .more value _ _ rest => value.HasDistinctKeys ∧ rest.HaveDistinctKeys

def Members.HaveDistinctKeys : Members → Prop
  | .closed _ => True
  | .broken _ _ => True
  | .unvalued _ _ _ => True
  | .more _ _ value _ rest => value.HasDistinctKeys ∧ rest.HaveDistinctKeys

end

/-! ## What is mirrored -/

theorem Items.Mirror.surplus_eq_none_iff {found : Items} {xs : List Json} {surplus : Option Fault}
    (h : found.Mirror xs) (hfollow : found.Follow surplus) : surplus = none ↔ xs = [] := by
  cases h with
  | nil _ => simpa [Items.Follow] using hfollow
  | cons _ _ _ _ => simpa [Items.Follow] using hfollow

mutual

/-- A marked node without repeated keys that can be read as a value of any shape mirrors one. -/
theorem Node.exists_mirrors {j : Json} : ∀ {node : Node}, node.IsMarked → node.HasDistinctKeys →
    node.value = .ok j → ∃ x, node.Mirrors x
  | .scalar (.ok s) stop, _, _, _ => ⟨_, .scalar s stop⟩
  | .scalar (.error _) _, _, _, h => by cases h
  | .list _ (some _) _, _, _, h => by cases h
  | .list start none found, hmarked, hkeys, h => by
    obtain ⟨_, hvalues, _⟩ := map_eq_ok.mp h
    obtain ⟨xs, hxs⟩ := Items.exists_mirror hmarked hkeys hvalues
    exact ⟨_, .list hxs start⟩
  | .object _ (some _) _, _, _, h => by cases h
  | .object start none found, hmarked, ⟨hnodup, hkeys⟩, h => by
    obtain ⟨_, hvalues, _⟩ := map_eq_ok.mp h
    obtain ⟨es, hes, heq⟩ := Members.exists_mirror hmarked hkeys hvalues
    exact ⟨_, .object hes (heq ▸ hnodup) start⟩
  | .broken _ _, _, _, h => by cases h

theorem Items.exists_mirror {index : Nat} {ys : List Json} : ∀ {found : Items}, found.AreMarked →
    found.HaveDistinctKeys → found.values index = .ok ys → ∃ xs, found.Mirror xs
  | .closed stop, _, _, _ => ⟨_, .nil stop⟩
  | .broken _ _, _, _, h => by cases h
  | .more value settle surplus rest, ⟨hmarked, hfollow, hmarks⟩, ⟨hkeys, hothers⟩, h => by
    obtain ⟨_, hvalue, h⟩ := bind_eq_ok.mp h
    obtain ⟨_, hrest, _⟩ := bind_eq_ok.mp h
    obtain ⟨x, hx⟩ := Node.exists_mirrors hmarked hkeys (mapError_eq_ok.mp hvalue)
    obtain ⟨xs, hxs⟩ := Items.exists_mirror hmarks hothers hrest
    exact ⟨_, .cons hx hxs settle (hxs.surplus_eq_none_iff hfollow)⟩

theorem Members.exists_mirror {ys : List (String × Json)} : ∀ {found : Members}, found.AreMarked →
    found.HaveDistinctKeys → found.values = .ok ys →
      ∃ es, found.Mirror es ∧ found.keys = es.map (·.1)
  | .closed stop, _, _, _ => ⟨_, .nil stop, rfl⟩
  | .broken _ _, _, _, h => by cases h
  | .unvalued (.error _) _ _, _, _, h => by cases h
  | .unvalued (.ok _) _ _, _, _, h => by cases h
  | .more (.error _) _ _ _ _, _, _, h => by cases h
  | .more (.ok key) keySettle value settle rest, ⟨hmarked, hmarks⟩, ⟨hkeys, hothers⟩, h => by
    obtain ⟨_, hvalue, h⟩ := bind_eq_ok.mp h
    obtain ⟨_, hrest, _⟩ := bind_eq_ok.mp h
    obtain ⟨x, hx⟩ := Node.exists_mirrors hmarked hkeys (mapError_eq_ok.mp hvalue)
    obtain ⟨es, hes, heq⟩ := Members.exists_mirror hmarks hothers hrest
    exact ⟨_, .cons hx hes key keySettle settle, by simp [Members.keys, heq]⟩

end

/-! ## Texts -/

/-- A text succeeds to be read if its node does and nothing else follows. -/
theorem Reader.fromText_eq_ok {α : Type} {r : Reader α} {source : String} {a : α} :
    r.fromText source = .ok a ↔
      r (Source.ofText source).root = .ok a ∧ (Source.ofText source).surplus = none := by
  rw [Reader.fromText, bind_eq_ok]
  cases (Source.ofText source).surplus <;> simp

/-- A text that is JSON without repeated keys mirrors a value, and is read as its sorted form. -/
theorem exists_mirrors_of_ofText {source : String} {j : Json} (h : Json.ofText source = .ok j)
    (hkeys : (Source.ofText source).root.HasDistinctKeys) :
    ∃ x, (Source.ofText source).root.Mirrors x ∧ j = x.sorted := by
  obtain ⟨hvalue, -⟩ := Reader.fromText_eq_ok.mp h
  obtain ⟨x, hx⟩ := Node.exists_mirrors (Source.isMarked_root source) hkeys hvalue
  rw [Reader.any, hx.holds.value_eq] at hvalue
  exact ⟨x, hx, (Except.ok.inj hvalue).symm⟩

/-- A faithful reader reads such a text as it reads the value of the text. -/
theorem Reader.Faithful.fromText_eq_ok_iff {α : Type} {r : Reader α} (hr : r.Faithful)
    {source : String} {j : Json} (h : Json.ofText source = .ok j)
    (hkeys : (Source.ofText source).root.HasDistinctKeys) (a : α) :
    r.fromText source = .ok a ↔ r.fromJson j = .ok a := by
  obtain ⟨x, hx, rfl⟩ := exists_mirrors_of_ofText h hkeys
  obtain ⟨-, hsurplus⟩ := Reader.fromText_eq_ok.mp h
  rw [Reader.fromText_eq_ok, Reader.fromJson, Node.ofJson_sorted, hr hx]
  exact and_iff_left hsurplus

end FormRules.Json
