import Switchboard.Proofs.Json.Ascii
import Switchboard.Proofs.Json.Legible
import Switchboard.Proofs.Json.Number
import Mathlib.Tactic.IntervalCases

/-!
# Printed values read back

The reader gives a legible value back from its printed form, at every level of indentation and
before every text that does not go on with a number. The proof goes by the depth that is left to the
reader; the items and the members of one container are taken one after the other.
-/

namespace Switchboard.Json

open Numeral (digitCodePoint decimalDigit?)

/-- Gives a value back from its printed form. -/
def Reads (inner : Reader Json) (j : Json) : Prop :=
  ∀ level rest, EndsNumber rest → inner (printAt level j ++ rest) = .ok (j, rest)

/-! ## Space between values -/

theorem skipSpace_cons {c : CodePoint} (h : isSpace c = false) (rest : Text) :
    skipSpace (c :: rest) = c :: rest := by
  rw [skipSpace, List.dropWhile_cons_of_neg (by simp [h])]

theorem skipSpace_newLine (level : Nat) (rest : Text) :
    skipSpace (newLine level ++ rest) = skipSpace rest := by
  have hSpaces : ∀ c ∈ newLine level, isSpace c = true := by
    intro c hc
    rcases List.mem_cons.mp hc with rfl | hRest
    · rfl
    · rw [List.eq_of_mem_replicate hRest]
      rfl
  rw [skipSpace, List.dropWhile_append_of_pos hSpaces]
  rfl

theorem endsNumber_cons {c : CodePoint} (hDigit : decimalDigit? c = none) (hPoint : c ≠ '.')
    (hSmall : c ≠ 'e') (hLarge : c ≠ 'E') (rest : Text) : EndsNumber (c :: rest) := by
  intro d hd
  obtain rfl : c = d := by simpa using hd
  exact ⟨hDigit, hPoint, hSmall, hLarge⟩

@[simp] theorem endsNumber_nil : EndsNumber [] := by simp [EndsNumber]

theorem endsNumber_newLine (level : Nat) (rest : Text) : EndsNumber (newLine level ++ rest) :=
  endsNumber_cons rfl (by decide) (by decide) (by decide) _

theorem endsNumber_comma (rest : Text) : EndsNumber (CodePoint.ofChar ',' :: rest) :=
  endsNumber_cons rfl (by decide) (by decide) (by decide) _

/-! ## Scalars -/

/-- A text whose first code point neither is space nor closes a container. -/
def StartsValue (t : Text) : Prop :=
  ∃ c rest, t = c :: rest ∧ isSpace c = false ∧ c ≠ ']' ∧ c ≠ '\x7d'

theorem StartsValue.skipSpace_eq {t : Text} (h : StartsValue t) : skipSpace t = t := by
  obtain ⟨c, rest, rfl, hSpace, _, _⟩ := h
  exact skipSpace_cons hSpace rest

theorem StartsValue.not_closing {t : Text} (h : StartsValue t) :
    Text.dropBeginning? "]" t = none ∧ Text.dropBeginning? "\x7d" t = none := by
  obtain ⟨c, rest, rfl, _, hBracket, hBrace⟩ := h
  constructor
  · rw [Text.dropBeginning?, if_neg]
    simpa [Text.ofString] using Ne.symm hBracket
  · rw [Text.dropBeginning?, if_neg]
    simpa [Text.ofString] using Ne.symm hBrace

theorem digitCodePoint_ne : ∀ d < 10, isSpace (digitCodePoint d) = false ∧
    digitCodePoint d ≠ ']' ∧ digitCodePoint d ≠ '\x7d' ∧ digitCodePoint d ≠ '"' ∧
    digitCodePoint d ≠ '[' ∧ digitCodePoint d ≠ '\x7b' := by decide

theorem head_signed (negative : Bool) {t : Text} (h : StartsDigit t) :
    ∃ c rest, Binary64.signText negative ++ t = c :: rest ∧ isSpace c = false ∧ c ≠ ']' ∧
      c ≠ '\x7d' ∧ c ≠ '"' ∧ c ≠ '[' ∧ c ≠ '\x7b' := by
  obtain ⟨d, rest, hd, rfl⟩ := h
  cases negative with
  | true => exact ⟨'-', _, rfl, by decide⟩
  | false => exact ⟨digitCodePoint d, rest, rfl, digitCodePoint_ne d hd⟩

theorem startsValue_signed (negative : Bool) {t : Text} (h : StartsDigit t) :
    StartsValue (Binary64.signText negative ++ t) := by
  obtain ⟨c, rest, hEq, hSpace, hBracket, hBrace, _⟩ := head_signed negative h
  exact ⟨c, rest, hEq, hSpace, hBracket, hBrace⟩

theorem readWord?_signed (negative : Bool) {t : Text} (h : StartsDigit t) :
    readWord? (Binary64.signText negative ++ t) = none := by
  obtain ⟨d, rest, hd, rfl⟩ := h
  interval_cases d <;> cases negative <;> rfl

theorem readValueWith_signed (inner : Option (Reader Json)) (negative : Bool) {t : Text}
    (h : StartsDigit t) :
    readValueWith inner (Binary64.signText negative ++ t) =
      readNumber (Binary64.signText negative ++ t) := by
  have hWord := readWord?_signed negative h
  obtain ⟨c, rest, hEq, _, _, _, hQuote, hBracket, hBrace⟩ := head_signed negative h
  rw [hEq] at hWord ⊢
  rw [readValueWith.eq_def]
  dsimp only
  rw [if_neg hQuote, if_neg hBracket, if_neg hBrace, hWord]

theorem exists_startsDigit_finite (negative : Bool) (rank : Fin topRank) (rest : Text) :
    ∃ t, StartsDigit t ∧ (Binary64.finite negative rank).text numberWords ++ rest =
      Binary64.signText negative ++ t := by
  by_cases hZero : rank.val = 0
  · refine ⟨("0.0" : Text) ++ rest, ⟨0, _, by decide, rfl⟩, ?_⟩
    rw [Binary64.text, if_pos hZero, List.append_assoc]
  · have hSignificant := isSignificant_significand (Binary64.shortest_coefficient_ne_zero rank hZero)
    refine ⟨_, startsDigit_text hSignificant rest, ?_⟩
    rw [Binary64.text, if_neg hZero, List.append_assoc]

theorem exists_startsDigit_ofInt (n : Int) (rest : Text) :
    ∃ t, StartsDigit t ∧ Text.ofInt n ++ rest = Binary64.signText (decide (n < 0)) ++ t := by
  have hWhole := isWhole_digits n.natAbs
  refine ⟨Text.ofNat n.natAbs ++ rest, ?_, ?_⟩
  · exact startsDigit_map_append hWhole.1 (Numeral.digits_ne_nil (by decide) _) rest
  · rw [ofInt_eq_signed, List.append_assoc]

theorem readValueWith_int (inner : Option (Reader Json)) {n : Int}
    (hLimit : (Numeral.digits 10 n.natAbs).length ≤ digitLimit) {rest : Text}
    (hRest : EndsNumber rest) :
    readValueWith inner (Text.ofInt n ++ rest) = .ok (int n, rest) := by
  obtain ⟨t, hStart, hText⟩ := exists_startsDigit_ofInt n rest
  rw [hText, readValueWith_signed inner _ hStart, ← hText]
  exact readNumber_ofInt hLimit hRest

theorem readValueWith_float (inner : Option (Reader Json)) (x : Binary64) {rest : Text}
    (hRest : EndsNumber rest) :
    readValueWith inner (x.text numberWords ++ rest) = .ok (float x, rest) := by
  cases x with
  | nan => rfl
  | infinite negative => cases negative <;> rfl
  | finite negative rank =>
    obtain ⟨t, hStart, hText⟩ := exists_startsDigit_finite negative rank rest
    rw [hText, readValueWith_signed inner _ hStart, ← hText]
    exact readNumber_finite negative rank hRest

theorem string_append (t rest : Text) :
    string t ++ rest = CodePoint.ofChar '"' :: (t.flatMap escape ++ CodePoint.ofChar '"' :: rest) := by
  rw [string, List.append_assoc, List.append_assoc]
  rfl

theorem readValueWith_string (inner : Option (Reader Json)) {t : Text} (h : Joined t)
    (rest : Text) : readValueWith inner (string t ++ rest) = .ok (str t, rest) := by
  rw [string_append, readValueWith.eq_def]
  dsimp only
  rw [if_pos rfl, readString_escapes h]

/-! ## Containers -/

theorem printAt_arr (level : Nat) (item : Json) (items : List Json) (rest : Text) :
    printAt level (arr (item :: items)) ++ rest =
      CodePoint.ofChar '[' :: (newLine (level + 1) ++ (printAt (level + 1) item ++
        (printItems (level + 1) items ++ (newLine level ++ CodePoint.ofChar ']' :: rest)))) := by
  simp only [printAt, List.append_assoc]
  rfl

theorem printItems_cons (level : Nat) (item : Json) (items : List Json) (rest : Text) :
    printItems level (item :: items) ++ rest =
      CodePoint.ofChar ',' :: (newLine level ++ (printAt level item ++
        (printItems level items ++ rest))) := by
  simp only [printItems, List.append_assoc]
  rfl

theorem printAt_obj (level : Nat) (name : Text) (value : Json) (members : List (Text × Json))
    (rest : Text) :
    printAt level (obj ((name, value) :: members)) ++ rest =
      CodePoint.ofChar '\x7b' :: (newLine (level + 1) ++ (string name ++
        (CodePoint.ofChar ':' :: CodePoint.ofChar ' ' :: (printAt (level + 1) value ++
          (printMembers (level + 1) members ++
            (newLine level ++ CodePoint.ofChar '\x7d' :: rest)))))) := by
  simp only [printAt, List.append_assoc]
  rfl

theorem printMembers_cons (level : Nat) (name : Text) (value : Json)
    (members : List (Text × Json)) (rest : Text) :
    printMembers level ((name, value) :: members) ++ rest =
      CodePoint.ofChar ',' :: (newLine level ++ (string name ++
        (CodePoint.ofChar ':' :: CodePoint.ofChar ' ' :: (printAt level value ++
          (printMembers level members ++ rest))))) := by
  simp only [printMembers, List.append_assoc]
  rfl

theorem startsValue_string (t rest : Text) : StartsValue (string t ++ rest) :=
  ⟨'"', _, string_append t rest, by decide⟩

theorem startsValue_printAt (level : Nat) (j : Json) (rest : Text) :
    StartsValue (printAt level j ++ rest) := by
  cases j with
  | null => exact ⟨'n', _, rfl, by decide⟩
  | bool b =>
    cases b with
    | true => exact ⟨'t', _, rfl, by decide⟩
    | false => exact ⟨'f', _, rfl, by decide⟩
  | int n =>
    obtain ⟨t, hStart, hText⟩ := exists_startsDigit_ofInt n rest
    rw [printAt, hText]
    exact startsValue_signed _ hStart
  | float x =>
    cases x with
    | nan => exact ⟨'N', _, rfl, by decide⟩
    | infinite negative =>
      cases negative with
      | true => exact ⟨'-', _, rfl, by decide⟩
      | false => exact ⟨'I', _, rfl, by decide⟩
    | finite negative rank =>
      obtain ⟨t, hStart, hText⟩ := exists_startsDigit_finite negative rank rest
      rw [printAt, hText]
      exact startsValue_signed _ hStart
  | str t =>
    rw [printAt]
    exact startsValue_string t rest
  | arr items =>
    cases items with
    | nil => exact ⟨'[', _, rfl, by decide⟩
    | cons item items => exact ⟨'[', _, printAt_arr level item items rest, by decide⟩
  | obj members =>
    cases members with
    | nil => exact ⟨'\x7b', _, rfl, by decide⟩
    | cons member members =>
      exact ⟨'\x7b', _, printAt_obj level member.1 member.2 members rest, by decide⟩

theorem endsNumber_printItems (level : Nat) (items : List Json) {rest : Text}
    (hRest : EndsNumber rest) : EndsNumber (printItems level items ++ rest) := by
  cases items with
  | nil => exact hRest
  | cons item items =>
    rw [printItems_cons]
    exact endsNumber_comma _

theorem endsNumber_printMembers (level : Nat) (members : List (Text × Json)) {rest : Text}
    (hRest : EndsNumber rest) : EndsNumber (printMembers level members ++ rest) := by
  cases members with
  | nil => exact hRest
  | cons member members =>
    rw [printMembers_cons]
    exact endsNumber_comma _

theorem readItems_print {inner : Reader Json} (level closing : Nat) (rest : Text) {bound : Nat}
    {item : Json} {items : List Json} (hBound : items.length < bound) (hItem : Reads inner item)
    (hItems : ∀ other ∈ items, Reads inner other) :
    readItems inner bound (printAt level item ++ (printItems level items ++
      (newLine closing ++ CodePoint.ofChar ']' :: rest))) = .ok (item :: items, rest) := by
  induction items generalizing item bound with
  | nil =>
    obtain ⟨bound, rfl⟩ := Nat.exists_eq_add_of_lt hBound
    rw [readItems, hItem level _ (endsNumber_printItems level [] (endsNumber_newLine closing _))]
    dsimp only
    rw [printItems, List.nil_append, skipSpace_newLine, skipSpace_cons rfl]
    rfl
  | cons next items ih =>
    obtain ⟨bound, rfl⟩ : ∃ below, bound = below + 1 := ⟨bound - 1, by omega⟩
    have hEnds := endsNumber_printItems level (next :: items)
      (endsNumber_newLine closing (CodePoint.ofChar ']' :: rest))
    obtain ⟨hNext, hOthers⟩ := List.forall_mem_cons.mp hItems
    rw [readItems, hItem level _ hEnds]
    dsimp only
    rw [printItems_cons, skipSpace_cons rfl]
    dsimp only
    rw [if_neg (by decide), if_pos rfl, skipSpace_newLine,
      (startsValue_printAt level next _).skipSpace_eq,
      ih (Nat.lt_of_succ_lt_succ hBound) hNext hOthers]

theorem readMember_print {inner : Reader Json} {name : Text} {value : Json} (hName : Joined name)
    (hValue : Reads inner value) (level : Nat) {rest : Text} (hRest : EndsNumber rest) :
    readMember inner (string name ++ (CodePoint.ofChar ':' :: CodePoint.ofChar ' ' ::
      (printAt level value ++ rest))) = .ok ((name, value), rest) := by
  have hSpace : ∀ t, skipSpace (CodePoint.ofChar ' ' :: t) = skipSpace t := fun _ => rfl
  rw [readMember, string_append, readName, if_pos rfl, readString_escapes hName]
  dsimp only
  rw [skipSpace_cons rfl, readColon, if_pos rfl]
  dsimp only
  rw [hSpace, (startsValue_printAt level value rest).skipSpace_eq, hValue level rest hRest]

theorem readMembers_print {inner : Reader Json} (level closing : Nat) (rest : Text) {bound : Nat}
    {name : Text} {value : Json} {members : List (Text × Json)} (hBound : members.length < bound)
    (hName : Joined name) (hValue : Reads inner value)
    (hMembers : ∀ other ∈ members, Joined other.1 ∧ Reads inner other.2) :
    readMembers inner bound (string name ++ (CodePoint.ofChar ':' :: CodePoint.ofChar ' ' ::
      (printAt level value ++ (printMembers level members ++
        (newLine closing ++ CodePoint.ofChar '\x7d' :: rest))))) =
      .ok ((name, value) :: members, rest) := by
  induction members generalizing name value bound with
  | nil =>
    obtain ⟨bound, rfl⟩ := Nat.exists_eq_add_of_lt hBound
    rw [readMembers, readMember_print hName hValue level
      (endsNumber_printMembers level [] (endsNumber_newLine closing _))]
    dsimp only
    rw [printMembers, List.nil_append, skipSpace_newLine, skipSpace_cons rfl]
    rfl
  | cons next members ih =>
    obtain ⟨bound, rfl⟩ : ∃ below, bound = below + 1 := ⟨bound - 1, by omega⟩
    have hEnds := endsNumber_printMembers level (next :: members)
      (endsNumber_newLine closing (CodePoint.ofChar '\x7d' :: rest))
    obtain ⟨hNext, hOthers⟩ := List.forall_mem_cons.mp hMembers
    rw [readMembers, readMember_print hName hValue level hEnds]
    dsimp only
    rw [printMembers_cons, skipSpace_cons rfl]
    dsimp only
    rw [if_neg (by decide), if_pos rfl, skipSpace_newLine,
      (startsValue_string next.1 _).skipSpace_eq,
      ih (Nat.lt_of_succ_lt_succ hBound) hNext.1 hNext.2 hOthers]

theorem length_le_length_printItems (level : Nat) (items : List Json) (rest : Text) :
    items.length ≤ (printItems level items ++ rest).length := by
  induction items with
  | nil => exact Nat.zero_le _
  | cons item items ih =>
    rw [printItems_cons]
    simp only [List.length_cons, List.length_append] at ih ⊢
    omega

theorem length_le_length_printMembers (level : Nat) (members : List (Text × Json)) (rest : Text) :
    members.length ≤ (printMembers level members ++ rest).length := by
  induction members with
  | nil => exact Nat.zero_le _
  | cons member members ih =>
    rw [printMembers_cons]
    simp only [List.length_cons, List.length_append] at ih ⊢
    omega

theorem readValueWith_arr {inner : Reader Json} {items : List Json}
    (hItems : ∀ item ∈ items, Reads inner item) (level : Nat) (rest : Text) :
    readValueWith (some inner) (printAt level (arr items) ++ rest) = .ok (arr items, rest) := by
  cases items with
  | nil => rfl
  | cons item items =>
    obtain ⟨hItem, hOthers⟩ := List.forall_mem_cons.mp hItems
    have hStart := startsValue_printAt (level + 1) item (printItems (level + 1) items ++
      (newLine level ++ CodePoint.ofChar ']' :: rest))
    have hLength := length_le_length_printItems (level + 1) items
      (newLine level ++ CodePoint.ofChar ']' :: rest)
    rw [printAt_arr, readValueWith.eq_def]
    dsimp only
    rw [if_neg (by decide), if_pos rfl, readArray, skipSpace_newLine, hStart.skipSpace_eq,
      hStart.not_closing.1]
    dsimp only
    rw [readItems_print (level + 1) level rest _ hItem hOthers]
    rw [List.length_append]
    omega

theorem readValueWith_obj {inner : Reader Json} {members : List (Text × Json)}
    (hNames : (Record.names members).Nodup)
    (hMembers : ∀ member ∈ members, Joined member.1 ∧ Reads inner member.2) (level : Nat)
    (rest : Text) :
    readValueWith (some inner) (printAt level (obj members) ++ rest) = .ok (obj members, rest) := by
  cases members with
  | nil => rfl
  | cons member members =>
    obtain ⟨name, value⟩ := member
    obtain ⟨⟨hName, hValue⟩, hOthers⟩ := List.forall_mem_cons.mp hMembers
    have hStart := startsValue_string name (CodePoint.ofChar ':' :: CodePoint.ofChar ' ' ::
      (printAt (level + 1) value ++ (printMembers (level + 1) members ++
        (newLine level ++ CodePoint.ofChar '\x7d' :: rest))))
    have hLength := length_le_length_printMembers (level + 1) members
      (newLine level ++ CodePoint.ofChar '\x7d' :: rest)
    rw [printAt_obj, readValueWith.eq_def]
    dsimp only
    rw [if_neg (by decide), if_neg (by decide), if_pos rfl, readObject, skipSpace_newLine,
      hStart.skipSpace_eq, hStart.not_closing.2]
    dsimp only
    rw [readMembers_print (level + 1) level rest _ hName hValue hOthers]
    · dsimp only
      rw [Record.putAll_nil hNames]
    · simp only [List.length_append, List.length_cons] at hLength ⊢
      omega

/-! ## Values -/

theorem reads_readValue {depth : Nat} {j : Json} (h : Legible depth j) :
    Reads (readValue depth) j := by
  induction depth generalizing j with
  | zero =>
    intro level rest hRest
    cases h with
    | null => rfl
    | bool b => cases b <;> rfl
    | int hLimit => exact readValueWith_int none hLimit hRest
    | float x => exact readValueWith_float none x hRest
    | str hJoined => exact readValueWith_string none hJoined rest
  | succ depth ih =>
    intro level rest hRest
    cases h with
    | null => rfl
    | bool b => cases b <;> rfl
    | int hLimit => exact readValueWith_int _ hLimit hRest
    | float x => exact readValueWith_float _ x hRest
    | str hJoined => exact readValueWith_string _ hJoined rest
    | arr hItems => exact readValueWith_arr (fun item hItem => ih (hItems item hItem)) level rest
    | obj hNames hJoined hValues =>
      refine readValueWith_obj hNames (fun member hMember => ⟨?_, ?_⟩) level rest
      · exact hJoined member.1 (List.mem_map_of_mem hMember)
      · exact ih (hValues member hMember)

/-- A whole text that prints a legible value is read as that value. -/
theorem parse_print {j : Json} (h : Legible nestingLimit j) : parse j.print = .ok j := by
  have hRead := reads_readValue h 0 [] endsNumber_nil
  have hStart := startsValue_printAt 0 j []
  rw [List.append_nil] at hRead hStart
  have hMark : (printAt 0 j).head? ≠ some byteOrderMark := by
    intro hHead
    have hPlain := ascii_printAt 0 j _ (List.mem_of_mem_head? hHead)
    revert hPlain
    decide
  rw [parse, read, print, if_neg hMark, hStart.skipSpace_eq, hRead]
  rfl

theorem legible_of_parse {t : Text} {j : Json} (h : parse t = .ok j) : Legible nestingLimit j := by
  unfold parse read at h
  split at h
  · cases h
  · rename_i value hRead
    cases h
    split at hRead
    · cases hRead
    · split at hRead
      · cases hRead
      · rename_i value' after hValue
        split at hRead
        · cases hRead
          exact legible_of_readValue nestingLimit _ _ _ hValue
        · cases hRead

end Switchboard.Json
