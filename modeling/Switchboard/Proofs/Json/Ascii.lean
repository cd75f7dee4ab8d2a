import Switchboard.Json.Printer
import Switchboard.Proofs.Text.Lines
import Switchboard.Proofs.Text.Numeral
import Switchboard.Proofs.Text.Utf8

/-!
# Printed text is ASCII

Printed JSON consists of new lines and of the ASCII code points that show. Such a text is one byte a
code point, reading its bytes gives it back, and it holds no carriage return.
-/

namespace Switchboard.Json

/-- Is a new line or an ASCII code point that shows. -/
def IsPlain (c : CodePoint) : Prop := c = '\n' ∨ (0x20 ≤ c.val ∧ c.val ≤ 0x7E)

instance (c : CodePoint) : Decidable (IsPlain c) := inferInstanceAs (Decidable (_ ∨ _))

def Ascii (t : Text) : Prop := ∀ c ∈ t, IsPlain c

instance (t : Text) : Decidable (Ascii t) := List.decidableBAll IsPlain t

theorem ascii_nil : Ascii [] := by simp [Ascii]

theorem ascii_append {t u : Text} (ht : Ascii t) (hu : Ascii u) : Ascii (t ++ u) :=
  List.forall_mem_append.mpr ⟨ht, hu⟩

theorem ascii_of_subset {t u : Text} (hSubset : t ⊆ u) (h : Ascii u) : Ascii t :=
  fun c hc => h c (hSubset hc)

theorem ascii_replicate (n : Nat) {c : CodePoint} (hc : 0x20 ≤ c.val ∧ c.val ≤ 0x7E) :
    Ascii (List.replicate n c) := by
  intro d hd
  rw [List.eq_of_mem_replicate hd]
  exact .inr hc

/-! ## Numbers -/

theorem ascii_digits {ds : List Nat} (hDigits : ∀ d ∈ ds, d < 16) :
    Ascii (ds.map Numeral.digitCodePoint) := by
  have hShown : ∀ d < 16, 0x20 ≤ (Numeral.digitCodePoint d).val ∧
      (Numeral.digitCodePoint d).val ≤ 0x7E := by decide
  intro c hc
  obtain ⟨d, hd, rfl⟩ := List.mem_map.mp hc
  exact .inr (hShown d (hDigits d hd))

theorem ascii_numeral {b : Nat} (hBase : 1 < b) (hSmall : b ≤ 16) (n : Nat) :
    Ascii ((Numeral.digits b n).map Numeral.digitCodePoint) :=
  ascii_digits fun _ hd => Nat.lt_of_lt_of_le (Numeral.lt_of_mem_digits hBase hd) hSmall

theorem ascii_ofNat (n : Nat) : Ascii (Text.ofNat n) :=
  ascii_numeral (by decide) (by decide) n

theorem ascii_ofInt (n : Int) : Ascii (Text.ofInt n) := by
  cases n with
  | ofNat n => exact ascii_ofNat n
  | negSucc n => exact List.forall_mem_cons.mpr ⟨by decide, ascii_ofNat (n + 1)⟩

theorem ascii_padded (width n : Nat) : Ascii (Text.padded width n) :=
  ascii_append (ascii_replicate _ (by decide)) (ascii_ofNat n)

theorem ascii_hex (width n : Nat) : Ascii (Text.hex width n) :=
  ascii_append (ascii_replicate _ (by decide)) (ascii_numeral (by decide) (by decide) n)

theorem ascii_exponentText (e : Int) : Ascii (Significand.exponentText e) := by
  refine ascii_append ?_ (ascii_padded 2 e.natAbs)
  split
  · decide
  · decide

theorem ascii_fraction {places : Text} (h : Ascii places) : Ascii (Significand.fraction places) := by
  rw [Significand.fraction]
  split
  · exact ascii_nil
  · exact ascii_append (by decide) h

theorem ascii_significand {s : Significand} (hDigits : ∀ d ∈ s.digits, d < 16) : Ascii s.text := by
  have hText := ascii_digits hDigits
  have hTake : ∀ n, Ascii ((s.digits.map Numeral.digitCodePoint).take n) :=
    fun n => ascii_of_subset (List.take_subset n _) hText
  have hDrop : ∀ n, Ascii ((s.digits.map Numeral.digitCodePoint).drop n) :=
    fun n => ascii_of_subset (List.drop_subset n _) hText
  have hZeros : ∀ n, Ascii (Significand.zeros n) := fun n => ascii_replicate n (by decide)
  unfold Significand.text
  dsimp only
  split
  · split
    · exact ascii_append (ascii_append (by decide) (hZeros _)) hText
    split
    · exact ascii_append (ascii_append hText (hZeros _)) (by decide)
    · exact ascii_append (ascii_append (hTake _) (by decide)) (hDrop _)
  · exact ascii_append (ascii_append (hTake 1) (ascii_fraction (hDrop 1))) (ascii_exponentText _)

theorem mem_significand_digits {d : Decimal} {x : Nat} (h : x ∈ d.significand.digits) : x < 16 := by
  have hMem : x ∈ (Numeral.digits 10 d.coefficient).reverse :=
    (List.dropWhile_sublist _).subset (List.mem_reverse.mp h)
  have hSmall := Numeral.lt_of_mem_digits (by decide) (List.mem_reverse.mp hMem)
  omega

theorem ascii_signText (negative : Bool) : Ascii (Binary64.signText negative) := by
  cases negative
  · exact ascii_nil
  · decide

theorem ascii_float (x : Binary64) : Ascii (x.text numberWords) := by
  cases x with
  | nan => decide
  | infinite negative => exact ascii_append (ascii_signText negative) (by decide)
  | finite negative rank =>
    refine ascii_append (ascii_signText negative) ?_
    split
    · decide
    · exact ascii_significand fun _ => mem_significand_digits

/-! ## Values -/

theorem ascii_unicodeEscape (v : Nat) : Ascii (unicodeEscape v) :=
  ascii_append (by decide) (ascii_hex 4 v)

theorem ascii_escape (c : CodePoint) : Ascii (escape c) := by
  have hLetters : Ascii (escapeLetters.map Prod.snd) := by decide
  rw [escape]
  split
  · rename_i letter hLookup
    obtain ⟨before, behind, hSplit, _⟩ := List.lookup_eq_some_iff.mp hLookup
    have hMem : (c, letter) ∈ escapeLetters := by
      rw [hSplit]
      exact List.mem_append_right _ List.mem_cons_self
    have hLetter := hLetters letter (List.mem_map_of_mem hMem)
    exact List.forall_mem_cons.mpr ⟨by decide, List.forall_mem_singleton.mpr hLetter⟩
  split
  · rename_i hShown
    exact List.forall_mem_singleton.mpr (.inr hShown)
  split
  · exact ascii_unicodeEscape _
  · exact ascii_append (ascii_unicodeEscape _) (ascii_unicodeEscape _)

theorem ascii_string (t : Text) : Ascii (string t) := by
  refine ascii_append (ascii_append (by decide) ?_) (by decide)
  intro c hc
  obtain ⟨d, _, hEscape⟩ := List.mem_flatMap.mp hc
  exact ascii_escape d c hEscape

theorem ascii_newLine (level : Nat) : Ascii (newLine level) :=
  List.forall_mem_cons.mpr ⟨.inl rfl, ascii_replicate _ (by decide)⟩

mutual

theorem ascii_printAt (level : Nat) : ∀ j : Json, Ascii (printAt level j)
  | null => (by decide : Ascii "null")
  | bool true => (by decide : Ascii "true")
  | bool false => (by decide : Ascii "false")
  | int n => ascii_ofInt n
  | float x => ascii_float x
  | str t => ascii_string t
  | arr [] => (by decide : Ascii "[]")
  | arr (item :: items) => by
    have hItem := ascii_printAt (level + 1) item
    have hItems := ascii_printItems (level + 1) items
    exact ascii_append (ascii_append (ascii_append (ascii_append (ascii_append (by decide)
      (ascii_newLine _)) hItem) hItems) (ascii_newLine _)) (by decide)
  | obj [] => (by decide : Ascii "\x7b\x7d")
  | obj ((name, value) :: members) => by
    have hValue := ascii_printAt (level + 1) value
    have hMembers := ascii_printMembers (level + 1) members
    exact ascii_append (ascii_append (ascii_append (ascii_append (ascii_append (ascii_append
      (ascii_append (by decide) (ascii_newLine _)) (ascii_string name)) (by decide)) hValue)
      hMembers) (ascii_newLine _)) (by decide)

theorem ascii_printItems (level : Nat) : ∀ items : List Json, Ascii (printItems level items)
  | [] => ascii_nil
  | item :: items => by
    have hItem := ascii_printAt level item
    have hItems := ascii_printItems level items
    exact ascii_append (ascii_append (ascii_append (by decide) (ascii_newLine _)) hItem) hItems

theorem ascii_printMembers (level : Nat) :
    ∀ members : List (Text × Json), Ascii (printMembers level members)
  | [] => ascii_nil
  | (name, value) :: members => by
    have hValue := ascii_printAt level value
    have hMembers := ascii_printMembers level members
    exact ascii_append (ascii_append (ascii_append (ascii_append (ascii_append (by decide)
      (ascii_newLine _)) (ascii_string name)) (by decide)) hValue) hMembers

end

/-! ## Bytes -/

theorem lt_of_ascii {t : Text} (h : Ascii t) {c : CodePoint} (hc : c ∈ t) : c.val < 0x80 := by
  rcases h c hc with rfl | ⟨_, hHigh⟩
  · decide
  · omega

theorem encodeLossy_cons {c : CodePoint} (hc : c.val < 0x80) (t : Text) :
    Utf8.encodeLossy (c :: t) = UInt8.ofNat c.val :: Utf8.encodeLossy t := by
  have hPlain : ¬ c.IsSurrogate := by
    rw [CodePoint.IsSurrogate]
    omega
  have hByte : Utf8.encodeCodePoint c = [UInt8.ofNat c.val] := by
    rw [Utf8.encodeCodePoint, if_pos hc]
  rw [Utf8.encodeLossy, List.filter_cons_of_pos (by simp [hPlain]), List.flatMap_cons, hByte]
  rfl

theorem encodable_of_ascii {t : Text} (h : Ascii t) : t.Encodable := by
  intro c hc
  have hSmall := lt_of_ascii h hc
  rw [CodePoint.IsSurrogate]
  omega

theorem decode_encodeLossy {t : Text} (h : Ascii t) :
    Utf8.decode (Utf8.encodeLossy t) = .ok t :=
  Utf8.decode_encodeLossy (encodable_of_ascii h)

theorem unifyBreaks_of_ascii {t : Text} (h : Ascii t) : t.unifyBreaks = t := by
  refine Text.unifyBreaks_eq_self fun hReturn => ?_
  have hByte := h _ hReturn
  revert hByte
  decide

end Switchboard.Json
