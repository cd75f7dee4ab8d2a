import Switchboard.Proofs.Json.RoundTrip
import Switchboard.RecordFile

/-!
# Records and the bytes of the settings file

A record is storable when the settings file can hold it. What the file is decoded to is storable,
putting switch positions keeps a record storable, and a storable record is decoded from the bytes
that it is written as.
-/

namespace Switchboard.RecordFile

open Json (Joined Legible)

def Storable (r : Record Text Json) : Prop :=
  Legible Json.nestingLimit (.obj r)

def valueDepth : Nat := 979

theorem storable_iff (r : Record Text Json) : Storable r ↔
    (Record.names r).Nodup ∧ (∀ name ∈ Record.names r, Joined name) ∧
      ∀ member ∈ r, Legible valueDepth member.2 := by
  change Legible (valueDepth + 1) (.obj r) ↔ _
  constructor
  · intro h
    cases h with
    | obj hNames hJoined hValues => exact ⟨hNames, hJoined, hValues⟩
  · rintro ⟨hNames, hJoined, hValues⟩
    exact .obj hNames hJoined hValues

theorem storable_nil : Storable [] :=
  (storable_iff []).mpr ⟨by simp, by simp, by simp⟩

theorem Storable.nodup {r : Record Text Json} (h : Storable r) : (Record.names r).Nodup :=
  ((storable_iff r).mp h).1

theorem storable_putAll {r pairs : Record Text Json} (hRecord : Storable r)
    (hPairs : Storable pairs) : Storable (r.putAll pairs) := by
  obtain ⟨hNames, hJoined, hValues⟩ := (storable_iff r).mp hRecord
  obtain ⟨_, hNew, hNewValues⟩ := (storable_iff pairs).mp hPairs
  refine (storable_iff _).mpr ⟨Record.nodup_names_putAll hNames pairs, ?_, ?_⟩
  · intro name hName
    obtain ⟨member, hMember, rfl⟩ := List.mem_map.mp hName
    rcases Record.mem_of_mem_putAll hMember with hPair | hOld
    · exact hNew _ (List.mem_map_of_mem hPair)
    · exact hJoined _ (List.mem_map_of_mem hOld)
  · intro member hMember
    rcases Record.mem_of_mem_putAll hMember with hPair | hOld
    · exact hNewValues member hPair
    · exact hValues member hOld

theorem storable_put {r : Record Text Json} (h : Storable r) {name : Text}
    (hName : name.Encodable) (b : Bool) : Storable (r.put name (.bool b)) := by
  have hPair : Storable [(name, .bool b)] := by
    refine (storable_iff _).mpr ⟨by simp, ?_, ?_⟩
    · exact List.forall_mem_singleton.mpr (Json.joined_of_encodable hName)
    · exact List.forall_mem_singleton.mpr (.bool b)
  exact storable_putAll h hPair

theorem decode_encode {r : Record Text Json} (h : Storable r) : decode (encode r) = .record r := by
  have hAscii := Json.ascii_printAt 0 (.obj r)
  have hParse := Json.parse_print h
  rw [Json.print] at hParse
  rw [decode, encode, Json.print, Json.decode_encodeLossy hAscii]
  dsimp only
  rw [Json.unifyBreaks_of_ascii hAscii, hParse]

theorem storable_of_decode {contents : Bytes} {r : Record Text Json}
    (h : decode contents = .record r) : Storable r := by
  rw [decode] at h
  split at h
  · cases h
  · split at h
    · cases h
    · rename_i hParse
      cases h
      exact Json.legible_of_parse hParse
    · cases h

/-! ## The length of the file -/

theorem length_le_length_escapes (t : Text) : t.length ≤ (t.flatMap Json.escape).length := by
  have hEscape : ∀ c, 1 ≤ (Json.escape c).length := by
    intro c
    rw [Json.escape]
    split
    · exact Nat.le_add_left 1 1
    split
    · exact Nat.le_refl 1
    split
    · exact Nat.le_add_left 1 _
    · exact Nat.le_add_left 1 _
  induction t with
  | nil => exact Nat.le_refl 0
  | cons c rest ih =>
    have := hEscape c
    simp only [List.flatMap_cons, List.length_append, List.length_cons]
    omega

theorem length_le_length_string (t : Text) : t.length ≤ (Json.string t).length := by
  have hEscapes := length_le_length_escapes t
  simp only [Json.string, List.length_append]
  omega

theorem length_name_le_printMembers (level : Nat) {members : List (Text × Json)} {name : Text}
    (h : name ∈ Record.names members) : name.length ≤ (Json.printMembers level members).length := by
  induction members with
  | nil => cases h
  | cons member rest ih =>
    have hText := Json.printMembers_cons level member.1 member.2 rest []
    rw [List.append_nil, List.append_nil] at hText
    have hString := length_le_length_string member.1
    rw [hText]
    rw [Record.names_cons] at h
    rcases List.mem_cons.mp h with rfl | hRest
    · simp only [List.length_cons, List.length_append]
      omega
    · have := ih hRest
      simp only [List.length_cons, List.length_append]
      omega

theorem length_encodeLossy {t : Text} (h : Json.Ascii t) :
    (Utf8.encodeLossy t).length = t.length := by
  induction t with
  | nil => rfl
  | cons c rest ih =>
    obtain ⟨_, hRest⟩ := List.forall_mem_cons.mp h
    rw [Json.encodeLossy_cons (Json.lt_of_ascii h List.mem_cons_self), List.length_cons, ih hRest]
    rfl

/-- A settings file is no shorter than any of its names. -/
theorem length_name_le_encode {r : Record Text Json} {name : Text} (h : name ∈ Record.names r) :
    name.length ≤ (encode r).length := by
  rw [encode, Json.print, length_encodeLossy (Json.ascii_printAt 0 (.obj r))]
  cases r with
  | nil => cases h
  | cons member rest =>
    have hText := Json.printAt_obj 0 member.1 member.2 rest []
    rw [List.append_nil] at hText
    have hString := length_le_length_string member.1
    rw [hText]
    rw [Record.names_cons] at h
    rcases List.mem_cons.mp h with rfl | hRest
    · simp only [List.length_cons, List.length_append]
      omega
    · have := length_name_le_printMembers (0 + 1) hRest
      simp only [List.length_cons, List.length_append]
      omega

end Switchboard.RecordFile
