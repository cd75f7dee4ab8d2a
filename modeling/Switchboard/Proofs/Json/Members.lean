import Switchboard.Proofs.Json.Legible

/-!
# The members of an object as they are spelled

A text that spells an object spells its members one after the other and may spell a name more than
once. Under such a name the object that is read has the value that is spelled last.
-/

namespace Switchboard.Json

/-- The members that a text spells after an opening brace, repetitions included. -/
def members? (t : Text) : Option (List (Text × Json)) :=
  match Text.dropBeginning? "\x7b" (skipSpace t) with
  | none => none
  | some inside =>
    match Text.dropBeginning? "\x7d" (skipSpace inside) with
    | some _ => some []
    | none =>
      match readMembers (readValue (nestingLimit - 1)) (skipSpace inside).length.succ
          (skipSpace inside) with
      | .error _ => none
      | .ok (members, _) => some members

/-- The value that is spelled last under a name, in a text that spells an object. -/
def lastMember? (name : Text) (t : Text) : Option Json :=
  match parse t with
  | .ok (.obj _) => (members? t).bind fun members => Record.get? members.reverse name
  | _ => none

variable {r : List (Text × Json)} {s t after : Text}

theorem readObject_of_readValueWith {inner : Reader Json}
    (h : readValueWith (some inner) s = .ok (.obj r, after)) :
    ∃ rest, s = CodePoint.ofChar '\x7b' :: rest ∧ readObject inner rest = .ok (.obj r, after) := by
  rw [readValueWith.eq_def] at h
  split at h
  · cases h
  · rename_i c rest
    split at h
    · split at h
      · cases h
      · cases h
    split at h
    · dsimp only at h
      rw [readArray] at h
      split at h
      · cases h
      · split at h
        · cases h
        · cases h
    split at h
    · rename_i hBrace
      exact ⟨rest, by rw [hBrace], h⟩
    -- A word or a number would be an object that holds no containers, and there is none.
    split at h
    · rename_i read hWord
      cases h
      have hLegible : Legible 0 (.obj r) := legible_of_readWord? hWord
      cases hLegible
    · have hLegible : Legible 0 (.obj r) := legible_of_readNumber h
      cases hLegible

theorem dropBeginning?_brace (rest : Text) :
    Text.dropBeginning? "\x7b" (CodePoint.ofChar '\x7b' :: rest) = some rest := by
  rw [Text.dropBeginning?, if_pos]
  · rfl
  · exact List.isPrefixOf_iff_prefix.mpr ⟨rest, rfl⟩

theorem members?_of_parse (h : parse t = .ok (.obj r)) :
    ∃ members, members? t = some members ∧ r = Record.putAll [] members := by
  have hRead : read t = .ok (.obj r) := by
    rw [parse] at h
    split at h
    · cases h
    · rename_i hRead
      cases h
      exact hRead
  rw [read] at hRead
  split at hRead
  · cases hRead
  split at hRead
  · cases hRead
  rename_i value after hValue
  split at hRead
  · cases hRead
    obtain ⟨inside, hBrace, hObject⟩ := readObject_of_readValueWith hValue
    rw [members?, hBrace, dropBeginning?_brace]
    dsimp only
    change readObject (readValue (nestingLimit - 1)) inside = .ok (.obj r, after) at hObject
    rw [readObject] at hObject
    cases hClosed : Text.dropBeginning? "\x7d" (skipSpace inside) with
    | some _ =>
      rw [hClosed] at hObject
      cases hObject
      exact ⟨[], rfl, rfl⟩
    | none =>
      rw [hClosed] at hObject
      dsimp only at hObject ⊢
      cases hMembers : readMembers (readValue (nestingLimit - 1)) (skipSpace inside).length.succ
          (skipSpace inside) with
      | error e =>
        rw [hMembers] at hObject
        cases hObject
      | ok found =>
        rw [hMembers] at hObject
        cases hObject
        exact ⟨found.1, rfl, rfl⟩
  · cases hRead

/-- The object that is read has under every name what is spelled there last. -/
theorem get?_of_parse (h : parse t = .ok (.obj r)) (name : Text) :
    Record.get? r name = lastMember? name t := by
  obtain ⟨members, hMembers, rfl⟩ := members?_of_parse h
  rw [lastMember?, h]
  dsimp only
  rw [hMembers, Record.get?_putAll, Record.get?_nil, Option.or_none]
  rfl

example : lastMember? "a" "\x7b\"a\": 1, \"b\": null, \"a\": true\x7d" = some (.bool true) := by
  decide +kernel

end Switchboard.Json
