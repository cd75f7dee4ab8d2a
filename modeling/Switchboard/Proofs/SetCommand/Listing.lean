import Switchboard.Proofs.Registry.Confluence
import Switchboard.Proofs.Registry.Declared
import Switchboard.Proofs.SetCommand
import Switchboard.Proofs.Text.Words

/-!
# The list of all switches

The list has a line for every switch, the one that shows the switch by itself. Where an identifier
is a word and no help breaks its line, the lines can be told apart again, and each gives the command
that brings its switch back to the position shown. These commands set different switches, so their
order does not matter.
-/

namespace Switchboard

/-- The identifier is a word, and the help does not leave its line. -/
structure Descriptor.Listable (d : Descriptor) : Prop where
  id : d.id.IsWord
  help : Text.newline ∉ d.help.plain

namespace SetCommand

open Registry (Trace)

def executeAll : List Text → Registry → Host →
    List (Except Failure (Option Reply)) × Registry × Host
  | [], r, host => ([], r, host)
  | line :: rest, r, host =>
    let (result, r, host) := execute line r host
    let (results, r, host) := executeAll rest r host
    (result :: results, r, host)

theorem executeAll_cons (line : Text) (rest : List Text) (r : Registry) (host : Host) :
    executeAll (line :: rest) r host =
      ((execute line r host).1 ::
          (executeAll rest (execute line r host).2.1 (execute line r host).2.2).1,
        (executeAll rest (execute line r host).2.1 (execute line r host).2.2).2) := rfl

def Succeeds (result : Except Failure (Option Reply)) : Prop :=
  ∃ output, result = .ok (some ⟨true, output⟩)

def showing (id : Text) : Text := word ++ " " ++ id

def wordAt (line : Text) (place : Nat) : Text := line.words[place]?.getD []

/-- The command to set a switch as a line of the list shows it: the first word of the line is its
identifier, and the third is its position. -/
def restoring (line : Text) : Text :=
  word ++ " " ++ wordAt line 0 ++ " " ++ wordAt line 2

def lineOf (s : Setting) : Text := entryText s.descriptor s.value

/-- The save that setting a switch as it is asks for. -/
def requestOf (s : Setting) : SaveRequest := ⟨s.descriptor.id, s.value⟩

variable {index : DescriptorIndex} {a b r : Registry} {d : Descriptor} {s : Setting} {id : Text}
  {host : Host}

/-! ## Words of the commands -/

theorem isWord_word : word.IsWord := by decide

theorem isWord_position (on : Bool) : (Toggle.word on).IsWord := by
  cases on <;> decide

theorem words_spaced {t : Text} (h : t.IsWord) (u : Text) :
    Text.words (t ++ (Text.ofString " " ++ u)) = t :: u.words :=
  Text.words_isWord_append h (by decide : (CodePoint.ofChar ' ').isBlank = true) u

theorem words_showing (hId : id.IsWord) : (showing id).words = [word, id] := by
  rw [showing, List.append_assoc, words_spaced isWord_word, Text.words_of_isWord hId]

theorem words_entryText (hId : d.id.IsWord) (on : Bool) : ∃ others,
    (entryText d (.bool on)).words = d.id :: Text.ofString "=" :: Toggle.word on :: others := by
  have hSign : (Text.ofString "=").IsWord := by decide
  have hBefore : Text.ofString " = " = Text.ofString " " ++ (Text.ofString "=" ++ " ") := by decide
  have hBehind : Text.ofString "  (" = Text.ofString " " ++ " (" := by decide
  rw [entryText, Toggle.format_bool, hBefore, hBehind]
  simp only [List.append_assoc]
  rw [words_spaced hId, words_spaced hSign, words_spaced (isWord_position on)]
  exact ⟨_, rfl⟩

theorem words_restoring (hId : d.id.IsWord) (on : Bool) :
    (restoring (entryText d (.bool on))).words = [word, d.id, Toggle.word on] := by
  obtain ⟨others, hWords⟩ := words_entryText hId on
  rw [restoring, wordAt, wordAt, hWords]
  simp only [List.getElem?_cons_zero, List.getElem?_cons_succ, Option.getD_some, List.append_assoc]
  rw [words_spaced isWord_word, words_spaced hId, Text.words_of_isWord (isWord_position on)]

/-! ## The lines -/

theorem newline_not_mem_of_isWord {t : Text} (h : t.IsWord) : Text.newline ∉ t := by
  intro hMem
  have hBlank := h.2 _ hMem
  revert hBlank
  decide

theorem newline_not_mem_entryText (h : d.Listable) (on : Bool) :
    Text.newline ∉ entryText d (.bool on) := by
  have hSign : Text.newline ∉ Text.ofString " = " := by decide
  have hOpen : Text.newline ∉ Text.ofString "  (" := by decide
  have hClose : Text.newline ∉ Text.ofString ")" := by decide
  simp only [entryText, Toggle.format_bool, List.mem_append, not_or]
  exact ⟨⟨⟨⟨⟨newline_not_mem_of_isWord h.id, hSign⟩, newline_not_mem_of_isWord
    (isWord_position on)⟩, hOpen⟩, h.help⟩, hClose⟩

theorem splitOn_listAll (hSome : r.settings ≠ [])
    (hLines : ∀ s ∈ r.settings, Text.newline ∉ lineOf s) :
    (listAll r).output.splitOn Text.newline = r.settings.map lineOf := by
  have hEach : ∀ line ∈ r.settings.map lineOf, Text.newline ∉ line := by simpa using hLines
  exact List.splitOn_intercalate Text.newline hEach (by simpa using hSome)

theorem execute_list (r : Registry) (host : Host) :
    execute word r host = (.ok (some (listAll r)), r, host) :=
  execute_of_words (Text.words_of_isWord isWord_word) rfl

theorem execute_showing (hId : s.descriptor.id.IsWord)
    (hSetting : r.setting? s.descriptor.id = some s) (host : Host) :
    execute (showing s.descriptor.id) r host = (.ok (some ⟨true, lineOf s⟩), r, host) := by
  have hShown : showOne s.descriptor.id r = ⟨true, lineOf s⟩ := by
    rw [showOne, hSetting]
    rfl
  rw [execute_of_words (words_showing hId) rfl, hShown]
  rfl

/-! ## Setting switches by their lines -/

theorem execute_restoring (hId : s.descriptor.id.IsWord) (hBool : s.value.isBool = true)
    (hKnown : s.descriptor.id ∈ r.ids) (hUnheard : r.listeners = []) (host : Host) :
    Succeeds (execute (restoring (lineOf s)) r host).1 ∧
      Trace [requestOf s] r (execute (restoring (lineOf s)) r host).2.1 := by
  obtain ⟨d, value⟩ := s
  obtain ⟨on, rfl⟩ := (Json.isBool_iff value).mp hBool
  obtain ⟨found, hSetting⟩ := (r.mem_ids_iff d.id).mp hKnown
  obtain ⟨hSet, hTrace⟩ := Registry.set_of_unanswered hSetting (.inr hUnheard) host
  have hToggle := toggle_of_set hSetting hSet
  have hRun : run [d.id, Toggle.word on] r host = _ := hToggle
  rw [lineOf, execute_of_words (words_restoring hId on) (congrArg Prod.fst hRun), hRun]
  exact ⟨⟨_, rfl⟩, hTrace⟩

theorem executeAll_restoring (sets : List Setting)
    (hSets : ∀ s ∈ sets, s.descriptor.id.IsWord ∧ s.value.isBool = true ∧ s.descriptor.id ∈ r.ids)
    (hUnheard : r.listeners = []) (host : Host) :
    (∀ result ∈ (executeAll (sets.map fun s => restoring (lineOf s)) r host).1, Succeeds result) ∧
      Trace (sets.map requestOf) r
        (executeAll (sets.map fun s => restoring (lineOf s)) r host).2.1 := by
  induction sets generalizing r host with
  | nil => exact ⟨nofun, .refl r⟩
  | cons s rest ih =>
    obtain ⟨⟨hId, hBool, hKnown⟩, hRest⟩ := List.forall_mem_cons.mp hSets
    obtain ⟨hFirst, hTrace⟩ := execute_restoring hId hBool hKnown hUnheard host
    rw [← hTrace.ids] at hRest
    obtain ⟨hLater, hLast⟩ := ih hRest (hTrace.listeners.trans hUnheard)
      (execute (restoring (lineOf s)) r host).2.2
    rw [List.map_cons, List.map_cons, executeAll_cons]
    exact ⟨List.forall_mem_cons.mpr ⟨hFirst, hLater⟩, hTrace.trans hLast⟩

/-- Registries of the same switches answer alike once each switch of the one has been set as it is in
the other. -/
theorem get_of_restored (hA : a.IsOver index) (hB : b.IsOver index) {sets : List Setting}
    (hSets : ∀ s, s ∈ sets ↔ s ∈ a.settings) {later : Registry}
    (hTrace : Trace (sets.map requestOf) b later) (id : Text) : later.get id = a.get id := by
  rw [Registry.get_eq, Registry.get_eq, hTrace.position, Registry.wantedAfter_eq]
  congr 1
  cases hLast : Registry.lastSave? id (sets.map requestOf) with
  | some request =>
    obtain ⟨hMem, rfl⟩ := Registry.mem_of_lastSave? hLast
    obtain ⟨s, hs, rfl⟩ := List.mem_map.mp hMem
    have hSetting : a.setting? (requestOf s).id = some s := hA.setting?_eq ((hSets s).mp hs)
    rw [Registry.position?, Registry.position?, hSetting]
    rfl
  | none =>
    have hUnknown : id ∉ a.ids := by
      intro hKnown
      obtain ⟨s, hs, rfl⟩ := List.mem_map.mp hKnown
      have hMem := List.mem_map_of_mem (f := requestOf) ((hSets s).mpr hs)
      obtain ⟨last, hSome⟩ := Registry.exists_lastSave? hMem
      cases hLast.symm.trans hSome
    rw [Registry.position?, Registry.position?, (a.setting?_eq_none_iff id).mpr hUnknown,
      (b.setting?_eq_none_iff id).mpr (by rwa [hB.ids_eq, ← hA.ids_eq])]
    rfl

/-- The list of all switches is made of the lines that show them one by one, in the order of their
declaration, and it can be replayed: in any registry of the same switches that nobody listens to, the
commands that the lines give succeed in any order, and they bring every switch to the position
shown. -/
theorem listing_replays (index : DescriptorIndex) (hSome : index.descriptors ≠ [])
    (hListable : ∀ d ∈ index.descriptors, d.Listable) (a b : Registry) (hA : a.IsOver index)
    (hB : b.IsOver index) (hBool : ∀ s ∈ a.settings, s.value.isBool = true)
    (hUnheard : b.listeners = []) (host : Host) : ∃ output,
    execute word a host = (.ok (some ⟨true, output⟩), a, host) ∧
      (index.descriptors.map fun d => execute (showing d.id) a host) =
        (output.splitOn Text.newline).map (fun line => (.ok (some ⟨true, line⟩), a, host)) ∧
      ∀ (lines : List Text) (elsewhere : Host), lines.Perm (output.splitOn Text.newline) →
        (∀ result ∈ (executeAll (lines.map restoring) b elsewhere).1, Succeeds result) ∧
        ∀ id, (executeAll (lines.map restoring) b elsewhere).2.1.get id = a.get id := by
  have hWord : ∀ s ∈ a.settings, s.descriptor.id.IsWord := fun s hs => (hListable _ (hA.mem hs)).id
  have hSplit : (listAll a).output.splitOn Text.newline = a.settings.map lineOf := by
    apply splitOn_listAll
    · intro hNone
      rw [Registry.IsOver, hNone] at hA
      exact hSome hA.symm
    · intro s hs
      obtain ⟨on, hOn⟩ := (Json.isBool_iff s.value).mp (hBool s hs)
      rw [lineOf, hOn]
      exact newline_not_mem_entryText (hListable _ (hA.mem hs)) on
  refine ⟨(listAll a).output, execute_list a host, ?_, ?_⟩
  · rw [hSplit, ← hA, List.map_map, List.map_map]
    refine List.map_congr_left fun s hs => ?_
    exact execute_showing (hWord s hs) (hA.setting?_eq hs) host
  · intro lines elsewhere hLines
    rw [hSplit] at hLines
    obtain ⟨sets, rfl, hPerm⟩ : ∃ sets : List Setting, lines = sets.map lineOf ∧
        sets.Perm a.settings :=
      (congrFun₂ (List.eq_map_comp_perm lineOf) lines a.settings).mpr hLines
    have hKnown : ∀ s ∈ sets, s.descriptor.id.IsWord ∧ s.value.isBool = true ∧
        s.descriptor.id ∈ b.ids := by
      intro s hs
      have hMem := hPerm.mem_iff.mp hs
      refine ⟨hWord s hMem, hBool s hMem, ?_⟩
      rw [hB.ids_eq, ← hA.ids_eq]
      exact List.mem_map_of_mem hMem
    obtain ⟨hSucceed, hTrace⟩ := executeAll_restoring sets hKnown hUnheard elsewhere
    rw [List.map_map]
    exact ⟨hSucceed, get_of_restored hA hB (fun s => hPerm.mem_iff) hTrace⟩

/-- Identifiers that look like parts of the command, and a help that looks like a line. -/
def crypticIndex : DescriptorIndex where
  descriptors := [⟨"=", true, .str "= on  (\r", false⟩, ⟨"/set", false, .str "", true⟩]
  nodup := by decide

def crypticStart : Registry where
  settings := crypticIndex.descriptors.map fun d => ⟨d, d.default⟩

def crypticTurned : Registry where
  settings := crypticIndex.descriptors.map fun d => ⟨d, .bool !d.default.isTruthy⟩

theorem listing_replays_when_cryptic :
    crypticIndex.descriptors ≠ [] ∧ (∀ d ∈ crypticIndex.descriptors, d.Listable) ∧
      crypticTurned.IsOver crypticIndex ∧ crypticStart.IsOver crypticIndex ∧
      (∀ s ∈ crypticTurned.settings, s.value.isBool = true) ∧ crypticStart.listeners = [] ∧
      ∃ output, execute word crypticTurned (Host.sample []) =
          (.ok (some ⟨true, output⟩), crypticTurned, Host.sample []) ∧
        output.splitOn Text.newline = [Text.ofString "= = off  (= on  (\r)", "/set = on  ()"] ∧
        let commands : List Text := ["/set /set on", "/set = off"]
        (∀ result ∈ (executeAll commands crypticStart (Host.sample [])).1, Succeeds result) ∧
        crypticStart.get "=" = .ok true ∧
        (executeAll commands crypticStart (Host.sample [])).2.1.get "=" = .ok false := by
  have hListable : ∀ d ∈ crypticIndex.descriptors, d.Listable := by
    simp only [crypticIndex, List.forall_mem_cons]
    exact ⟨⟨by decide, by decide⟩, ⟨by decide, by decide⟩, List.forall_mem_nil _⟩
  have hBool : ∀ s ∈ crypticTurned.settings, s.value.isBool = true := by
    simp [crypticTurned, crypticIndex, Json.isBool]
  have hSome : crypticIndex.descriptors ≠ [] := List.cons_ne_nil _ _
  obtain ⟨output, hList, _, hReplays⟩ := listing_replays crypticIndex hSome hListable crypticTurned
    crypticStart rfl rfl hBool rfl (Host.sample [])
  have hOutput : output = (listAll crypticTurned).output := by
    rw [execute_list] at hList
    cases hList
    rfl
  have hSplit : output.splitOn Text.newline =
      [Text.ofString "= = off  (= on  (\r)", "/set = on  ()"] := by
    rw [hOutput]
    decide
  have hCommands : [Text.ofString "/set = on  ()", "= = off  (= on  (\r)"].map restoring =
      [Text.ofString "/set /set on", "/set = off"] := by decide
  obtain ⟨hSucceed, hGet⟩ := hReplays ["/set = on  ()", "= = off  (= on  (\r)"] (Host.sample [])
    (by rw [hSplit]; exact .swap ..)
  rw [hCommands] at hSucceed hGet
  exact ⟨hSome, hListable, rfl, rfl, hBool, rfl, output, hList, hSplit, hSucceed, rfl, hGet "="⟩

end SetCommand

end Switchboard
