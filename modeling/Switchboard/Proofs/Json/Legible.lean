import Switchboard.Json.Parser
import Switchboard.Proofs.Json.String
import Switchboard.Proofs.Record
import Switchboard.Proofs.Text.Numeral

/-!
# Legible values

A value is legible when a text can spell it: its whole numbers keep to the limit on digits, its
texts hold no surrogates that reading would join, its objects list every name once, and its
containers nest to no greater depth than the reader goes. Whatever the reader gives is legible.
-/

namespace Switchboard.Json

inductive Legible : Nat → Json → Prop
  | null {depth : Nat} : Legible depth null
  | bool {depth : Nat} (b : Bool) : Legible depth (bool b)
  | int {depth : Nat} {n : Int} (hLimit : (Numeral.digits 10 n.natAbs).length ≤ digitLimit) :
    Legible depth (int n)
  | float {depth : Nat} (x : Binary64) : Legible depth (float x)
  | str {depth : Nat} {t : Text} (hJoined : Joined t) : Legible depth (str t)
  | arr {depth : Nat} {items : List Json} (hItems : ∀ item ∈ items, Legible depth item) :
    Legible (depth + 1) (arr items)
  | obj {depth : Nat} {members : List (Text × Json)} (hNames : (Record.names members).Nodup)
    (hJoined : ∀ name ∈ Record.names members, Joined name)
    (hValues : ∀ member ∈ members, Legible depth member.2) : Legible (depth + 1) (obj members)

/-- The values that a reader gives are legible. -/
def Sound (depth : Nat) (inner : Reader Json) : Prop :=
  ∀ s j rest, inner s = .ok (j, rest) → Legible depth j

/-! ## Numbers and words -/

theorem lt_of_mem_readDigits {s : Text} {d : Nat} (h : d ∈ (readDigits s).1) : d < 10 := by
  induction s with
  | nil => cases h
  | cons c rest ih =>
    rw [readDigits] at h
    split at h
    · rename_i first hFirst
      rcases List.mem_cons.mp h with rfl | hRest
      · exact Numeral.lt_of_decimalDigit?_eq_some hFirst
      · exact ih hRest
    · cases h

theorem digits_of_readWhole? {s rest : Text} {whole : List Nat}
    (h : readWhole? s = some (whole, rest)) : 0 < whole.length ∧ ∀ d ∈ whole, d < 10 := by
  have hDigits := fun d => lt_of_mem_readDigits (s := s) (d := d)
  rw [readWhole?] at h
  split at h
  · cases h
  · obtain ⟨rfl, _⟩ := Prod.mk.inj (Option.some.inj h)
    exact ⟨by decide, by simp⟩
  · rename_i hNil _
    rw [Option.some.injEq] at h
    rw [h] at hNil hDigits
    exact ⟨List.length_pos_of_ne_nil fun hEq => hNil rest (by rw [hEq]), hDigits⟩

theorem legible_of_readUnsigned {depth : Nat} {negative : Bool} {s rest : Text} {j : Json}
    (h : readUnsigned negative s = some (.ok (j, rest))) : Legible depth j := by
  rw [readUnsigned] at h
  split at h
  · cases h
  · rename_i whole afterWhole hWhole
    obtain ⟨hLength, hDigits⟩ := digits_of_readWhole? hWhole
    dsimp only at h
    split at h
    · split at h
      · cases h
      · rename_i hLimit
        cases h
        have hValue := Numeral.value_lt_pow (by decide) whole hDigits
        have hCount := (Numeral.length_digits_le_iff (by decide) hLength _).mpr hValue
        refine .int ?_
        rw [show (if negative = true then -((Numeral.value 10 whole : Nat) : Int)
          else (Numeral.value 10 whole : Nat)).natAbs = Numeral.value 10 whole by split <;> simp]
        omega
    · cases h
      exact .float _

theorem legible_of_readNumber {depth : Nat} {s rest : Text} {j : Json}
    (h : readNumber s = .ok (j, rest)) : Legible depth j := by
  have hSome : ∀ read : Option (Except Refusal (Json × Text)),
      read.getD (refuse .expectedValue s) = .ok (j, rest) → read = some (.ok (j, rest)) := by
    intro read hRead
    cases read with
    | none => cases hRead
    | some read => exact congrArg some hRead
  have hUnsigned := hSome _ h
  split at hUnsigned
  · cases hUnsigned
  · split at hUnsigned
    · exact legible_of_readUnsigned hUnsigned
    · exact legible_of_readUnsigned hUnsigned

theorem legible_of_mem_fixedWords {depth : Nat} {word : Text × Json} (h : word ∈ fixedWords) :
    Legible depth word.2 := by
  simp only [fixedWords, List.mem_cons, List.not_mem_nil, or_false] at h
  rcases h with rfl | rfl | rfl | rfl | rfl | rfl
  · exact .null
  · exact .bool true
  · exact .bool false
  · exact .float _
  · exact .float _
  · exact .float _

theorem legible_of_readWord? {depth : Nat} {s rest : Text} {j : Json}
    (h : readWord? s = some (j, rest)) : Legible depth j := by
  obtain ⟨word, hWord, hRead⟩ := List.exists_of_findSome?_eq_some h
  obtain ⟨_, _, hPair⟩ := Option.map_eq_some_iff.mp hRead
  obtain ⟨rfl, _⟩ := Prod.mk.inj hPair
  exact legible_of_mem_fixedWords hWord

/-! ## Containers -/

theorem legible_of_readItems {depth : Nat} {inner : Reader Json} (hInner : Sound depth inner)
    {bound : Nat} {s rest : Text} {items : List Json}
    (h : readItems inner bound s = .ok (items, rest)) : ∀ item ∈ items, Legible depth item := by
  induction bound generalizing s items with
  | zero => cases h
  | succ bound ih =>
    rw [readItems] at h
    split at h
    · cases h
    · rename_i first afterFirst hFirst
      have hHead : Legible depth first := hInner _ _ _ hFirst
      split at h
      · cases h
      · split at h
        · cases h
          exact List.forall_mem_singleton.mpr hHead
        split at h
        · split at h
          · cases h
          · rename_i others after hOthers
            cases h
            exact List.forall_mem_cons.mpr ⟨hHead, ih hOthers⟩
        · cases h

theorem joined_of_readName {s name rest : Text} (h : readName s = .ok (name, rest)) :
    Joined name := by
  unfold readName at h
  split at h
  · cases h
  · split at h
    · exact joined_of_readString h
    · cases h

theorem legible_of_readMember {depth : Nat} {inner : Reader Json} (hInner : Sound depth inner)
    {s rest : Text} {member : Text × Json} (h : readMember inner s = .ok (member, rest)) :
    Joined member.1 ∧ Legible depth member.2 := by
  rw [readMember] at h
  split at h
  · cases h
  · rename_i name afterName hName
    split at h
    · cases h
    · split at h
      · cases h
      · rename_i value after hValue
        cases h
        exact ⟨joined_of_readName hName, hInner _ _ _ hValue⟩

theorem legible_of_readMembers {depth : Nat} {inner : Reader Json} (hInner : Sound depth inner)
    {bound : Nat} {s rest : Text} {members : List (Text × Json)}
    (h : readMembers inner bound s = .ok (members, rest)) :
    ∀ member ∈ members, Joined member.1 ∧ Legible depth member.2 := by
  induction bound generalizing s members with
  | zero => cases h
  | succ bound ih =>
    rw [readMembers] at h
    split at h
    · cases h
    · rename_i first afterFirst hFirst
      have hHead := legible_of_readMember hInner hFirst
      split at h
      · cases h
      · split at h
        · cases h
          exact List.forall_mem_singleton.mpr hHead
        split at h
        · split at h
          · cases h
          · rename_i others after hOthers
            cases h
            exact List.forall_mem_cons.mpr ⟨hHead, ih hOthers⟩
        · cases h

theorem legible_of_readArray {depth : Nat} {inner : Reader Json} (hInner : Sound depth inner)
    {s rest : Text} {j : Json} (h : readArray inner s = .ok (j, rest)) : Legible (depth + 1) j := by
  rw [readArray] at h
  split at h
  · cases h
    exact .arr (by simp)
  · split at h
    · cases h
    · rename_i items after hItems
      cases h
      exact .arr (legible_of_readItems hInner hItems)

theorem legible_of_readObject {depth : Nat} {inner : Reader Json} (hInner : Sound depth inner)
    {s rest : Text} {j : Json} (h : readObject inner s = .ok (j, rest)) :
    Legible (depth + 1) j := by
  rw [readObject] at h
  split at h
  · cases h
    exact .obj (by simp) (by simp) (by simp)
  · split at h
    · cases h
    · rename_i members after hMembers
      cases h
      have hRead := legible_of_readMembers hInner hMembers
      have hOrigin : ∀ member ∈ Record.putAll [] members, member ∈ members := by
        intro member hMember
        exact (Record.mem_of_mem_putAll hMember).resolve_right List.not_mem_nil
      refine .obj (Record.nodup_names_putAll (by simp) members) ?_ ?_
      · intro name hName
        obtain ⟨member, hMember, rfl⟩ := List.mem_map.mp hName
        exact (hRead member (hOrigin member hMember)).1
      · intro member hMember
        exact (hRead member (hOrigin member hMember)).2

/-! ## Values -/

theorem legible_of_readValueWith {depth : Nat} {inner : Option (Reader Json)}
    (hInner : ∀ reader ∈ inner, ∃ below, depth = below + 1 ∧ Sound below reader) :
    Sound depth (readValueWith inner) := by
  intro s j rest h
  unfold readValueWith at h
  split at h
  · cases h
  · split at h
    · split at h
      · cases h
      · rename_i t after hString
        cases h
        exact .str (joined_of_readString hString)
    split at h
    · split at h
      · cases h
      · obtain ⟨below, rfl, hSound⟩ := hInner _ rfl
        exact legible_of_readArray hSound h
    split at h
    · split at h
      · cases h
      · obtain ⟨below, rfl, hSound⟩ := hInner _ rfl
        exact legible_of_readObject hSound h
    split at h
    · rename_i hWord
      cases h
      exact legible_of_readWord? hWord
    · exact legible_of_readNumber h

theorem legible_of_readValue (depth : Nat) : Sound depth (readValue depth) := by
  induction depth with
  | zero => exact legible_of_readValueWith (by simp)
  | succ depth ih =>
    refine legible_of_readValueWith fun reader hReader => ⟨depth, rfl, ?_⟩
    obtain rfl := Option.some.inj hReader
    exact ih

end Switchboard.Json
