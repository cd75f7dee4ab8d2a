import Switchboard.Proofs.Registry.Tracing

/-!
# What the set command carries out

The command goes by the words of a line alone. It carries out a list of all switches, the showing of
a known one, and the setting of a known one to one of the two positions. Everything else it refuses,
and a refusal leaves the registry and the host as they were, whatever listeners there are. This takes
a signal that contains what listeners fail by: with one that does not, the command reports a switch
that a listener has asked for as if the line had.
-/

namespace Switchboard

theorem Toggle.parse_of_no_word {token : Text} (h : ∀ on, token ≠ word on) :
    parse (.str token) = .error (.notToggle (.str token)) := by
  rw [parse, if_neg (h true), if_neg (h false)]

namespace SetCommand

open Registry (Trace)

/-- The words behind the command that it carries out, by the identifiers of the switches. -/
def Accepts (ids : List Text) : List Text → Prop
  | [] => True
  | [id] => id ∈ ids
  | [id, token] => id ∈ ids ∧ ∃ on, token = Toggle.word on
  | _ => False

/-- A refusal that names a switch names the first of some words, and there is no such switch. -/
def NamesFirst (ids args : List Text) (output : Text) : Prop :=
  ∀ named : Text, output = "no such setting: " ++ named → args.head? = some named ∧ named ∉ ids

variable {line id token : Text} {args : List Text} {r : Registry} {host : Host} {s : Setting}

/-! ## Forms of the command -/

theorem toggle_of_set {on : Bool} (h : r.setting? id = some s)
    (hSet : (r.set id (.bool on) host).1 = .ok ()) :
    toggle id (Toggle.word on) r host =
      (.ok ⟨true, toggledText s.descriptor on⟩, (r.set id (.bool on) host).2) := by
  rw [toggle, Toggle.parse_word]
  dsimp only
  rw [Registry.descriptor, h]
  dsimp only
  generalize r.set id (.bool on) host = after at hSet
  obtain ⟨result, later⟩ := after
  obtain rfl : result = .ok () := hSet
  rfl

theorem toggle_of_unknown (h : r.setting? id = none) (on : Bool) (host : Host) :
    toggle id (Toggle.word on) r host = (.ok ⟨false, "no such setting: " ++ id⟩, r, host) := by
  rw [toggle, Toggle.parse_word]
  dsimp only
  rw [Registry.descriptor, h]
  rfl

theorem toggle_of_no_word (h : ∀ on, token ≠ Toggle.word on) (id : Text) (r : Registry)
    (host : Host) :
    toggle id token r host =
      (.ok ⟨false, (Failure.notToggle (.str token)).message ++ "\n" ++ usage⟩, r, host) := by
  rw [toggle, Toggle.parse_of_no_word h]

theorem namesFirst_of_head {ids : List Text} {output : Text} {c : CodePoint} {rest : Text}
    (h : output = c :: rest) (hOther : c ≠ 'n') (args : List Text) :
    NamesFirst ids args output := by
  intro named hNamed
  rw [h] at hNamed
  exact absurd (List.cons.inj hNamed).1 hOther

theorem namesFirst_self {ids : List Text} (h : id ∉ ids) (rest : List Text) :
    NamesFirst ids (id :: rest) ("no such setting: " ++ id) := by
  intro named hNamed
  obtain rfl : id = named := List.append_cancel_left hNamed
  exact ⟨rfl, h⟩

theorem toggle_of_known (hSignal : r.signal.Contains) (h : r.setting? id = some s) (on : Bool)
    (host : Host) :
    toggle id (Toggle.word on) r host =
      (.ok ⟨true, toggledText s.descriptor on⟩, (r.set id (.bool on) host).2) :=
  toggle_of_set h (Registry.set_of_known hSignal h on host)

/-- The command sets a known switch, or reads switches, or refuses. -/
theorem run_cases (hSignal : r.signal.Contains) (args : List Text) (host : Host) :
    (∃ id on s, args = [id, Toggle.word on] ∧ r.setting? id = some s ∧
      run args r host =
        (.ok ⟨true, toggledText s.descriptor on⟩, (r.set id (.bool on) host).2)) ∨
    (∃ output, (args = [] ∨ ∃ id ∈ r.ids, args = [id]) ∧
      run args r host = (.ok ⟨true, output⟩, r, host)) ∨
    ∃ output, ¬ Accepts r.ids args ∧ NamesFirst r.ids args output ∧
      run args r host = (.ok ⟨false, output⟩, r, host) := by
  rcases args with _ | ⟨id, _ | ⟨token, _ | ⟨third, rest⟩⟩⟩
  · exact .inr (.inl ⟨_, .inl rfl, rfl⟩)
  · cases hSetting : r.setting? id with
    | none =>
      have hUnknown := (r.setting?_eq_none_iff id).mp hSetting
      refine .inr (.inr ⟨_, hUnknown, namesFirst_self hUnknown [], ?_⟩)
      rw [run, showOne, hSetting]
      rfl
    | some s =>
      have hKnown := (r.mem_ids_iff id).mpr ⟨s, hSetting⟩
      refine .inr (.inl ⟨entryText s.descriptor s.value, .inr ⟨id, hKnown, rfl⟩, ?_⟩)
      rw [run, showOne, hSetting]
  · by_cases hWord : ∃ on, token = Toggle.word on
    · obtain ⟨on, rfl⟩ := hWord
      cases hSetting : r.setting? id with
      | none =>
        have hUnknown := (r.setting?_eq_none_iff id).mp hSetting
        exact .inr (.inr ⟨_, fun hAccepts => hUnknown hAccepts.1, namesFirst_self hUnknown _,
          toggle_of_unknown hSetting on host⟩)
      | some s => exact .inl ⟨id, on, s, rfl, hSetting, toggle_of_known hSignal hSetting on host⟩
    · have hNone : ∀ on, token ≠ Toggle.word on := fun on hEq => hWord ⟨on, hEq⟩
      refine .inr (.inr ⟨_, fun hAccepts => hWord hAccepts.2, ?_,
        toggle_of_no_word hNone id r host⟩)
      exact namesFirst_of_head (c := 'i') rfl (by decide) _
  · refine .inr (.inr ⟨usage, fun hAccepts => hAccepts, ?_, rfl⟩)
    exact namesFirst_of_head (c := 'u') rfl (by decide) _

theorem exists_reply_iff_accepts (hSignal : r.signal.Contains) (args : List Text) (host : Host) :
    ∃ reply, (run args r host).1 = .ok reply ∧ (reply.success = true ↔ Accepts r.ids args) := by
  rcases run_cases hSignal args host with
    ⟨id, on, s, rfl, hSetting, hRun⟩ | ⟨output, hReads, hRun⟩ | ⟨output, hRefused, _, hRun⟩
  · have hKnown := (r.mem_ids_iff id).mpr ⟨s, hSetting⟩
    exact ⟨_, by rw [hRun], fun _ => ⟨hKnown, on, rfl⟩, fun _ => rfl⟩
  · have hAccepts : Accepts r.ids args := by
      rcases hReads with rfl | ⟨id, hKnown, rfl⟩
      · trivial
      · exact hKnown
    exact ⟨_, by rw [hRun], fun _ => hAccepts, fun _ => rfl⟩
  · exact ⟨_, by rw [hRun], fun hSuccess => absurd hSuccess Bool.false_ne_true,
      fun hAccepts => absurd hAccepts hRefused⟩

theorem run_of_no_set (hSignal : r.signal.Contains)
    (h : ∀ id on, id ∈ r.ids → args ≠ [id, Toggle.word on]) (host : Host) :
    (run args r host).2 = (r, host) := by
  rcases run_cases hSignal args host with
    ⟨id, on, s, hArgs, hSetting, _⟩ | ⟨output, _, hRun⟩ | ⟨output, _, _, hRun⟩
  · exact absurd hArgs (h id on ((r.mem_ids_iff id).mpr ⟨s, hSetting⟩))
  · rw [hRun]
  · rw [hRun]

theorem execute_of_words {reply : Reply} (h : line.words = word :: args)
    (hReply : (run args r host).1 = .ok reply) :
    execute line r host = (.ok (some reply), (run args r host).2) := by
  have hCommand : isCommand line = true := by rw [isCommand, h]; rfl
  rw [execute, if_pos hCommand, h, List.tail_cons]
  generalize run args r host = after at hReply
  obtain ⟨result, later⟩ := after
  obtain rfl : result = .ok reply := hReply
  rfl

theorem execute_of_other (h : line.words.head? ≠ some word) (r : Registry) (host : Host) :
    execute line r host = (.ok none, r, host) := by
  have hOther : ¬ isCommand line = true := by simpa [isCommand] using h
  rw [execute, if_neg hOther]

theorem execute_congr {other : Text} (h : other.words = line.words) (r : Registry) (host : Host) :
    execute other r host = execute line r host := by
  rw [execute, execute, isCommand, isCommand, h]

theorem words_eq_cons (h : line.words.head? = some word) :
    line.words = word :: line.words.tail :=
  (List.cons_head?_tail h).symm

/-! ## Whole lines -/

/-- The command goes by the words of a line: it has a reply exactly where the first word is its own,
it succeeds exactly where it accepts the words behind, and it changes nothing but where these set a
known switch to a position. That is submitted once, ahead of what listeners set in answer to it. -/
theorem execute_follows_grammar (line : Text) (r : Registry) (host : Host)
    (hSignal : r.signal.Contains) :
    ∃ reply?, (execute line r host).1 = .ok reply? ∧
      (reply? = none ∧ (execute line r host).2 = (r, host) ↔ line.words.head? ≠ some word) ∧
      (∀ args, line.words = word :: args →
        ∃ reply, reply? = some reply ∧ (reply.success = true ↔ Accepts r.ids args)) ∧
      (∀ id on, id ∈ r.ids → line.words = [word, id, Toggle.word on] →
        (execute line r host).2 = (r.set id (.bool on) host).2 ∧
        ∃ nested, Trace (⟨id, .bool on⟩ :: nested) r (execute line r host).2.1 ∧
          (r.get id = .ok (.bool on) ∨ r.listeners = [] → nested = [])) ∧
      ((∀ id on, id ∈ r.ids → line.words ≠ [word, id, Toggle.word on]) →
        (execute line r host).2 = (r, host)) ∧
      ∀ other : Text, other.words = line.words → execute other r host = execute line r host := by
  by_cases hHead : line.words.head? = some word
  · have hWords := words_eq_cons hHead
    generalize line.words.tail = args at hWords
    obtain ⟨reply, hReply, hSuccess⟩ := exists_reply_iff_accepts hSignal args host
    rw [execute_of_words hWords hReply, hWords]
    refine ⟨some reply, rfl, by simp, ?_, ?_, ?_, ?_⟩
    · rintro _ ⟨⟩
      exact ⟨reply, rfl, hSuccess⟩
    · rintro id on hKnown ⟨⟩
      obtain ⟨s, hSetting⟩ := (r.mem_ids_iff id).mp hKnown
      have hRun : (run [id, Toggle.word on] r host).2 = (r.set id (.bool on) host).2 :=
        congrArg Prod.snd (toggle_of_known hSignal hSetting on host)
      rw [hRun]
      exact ⟨rfl, Registry.exists_trace_set hSignal hSetting on host⟩
    · intro hNone
      exact run_of_no_set hSignal (fun id on hKnown hArgs => hNone id on hKnown (hArgs ▸ rfl)) host
    · intro other hSame
      rw [← execute_of_words hWords hReply]
      exact execute_congr (hSame.trans hWords.symm) r host
  · rw [execute_of_other hHead]
    refine ⟨none, rfl, by simp [hHead], ?_, ?_, fun _ => rfl, ?_⟩
    · intro args hWords
      exact absurd (by rw [hWords]; rfl) hHead
    · intro id on _ hWords
      exact absurd (by rw [hWords]; rfl) hHead
    · intro other hSame
      exact execute_of_other (hSame ▸ hHead) r host

/-- The client's switches with listeners that set switches which are not there, and fail. -/
def disturbed : Registry where
  settings := Descriptor.table.map fun d => ⟨d, d.default⟩
  listeners :=
    [.program Registry.meddle, .rule Descriptor.loggingEnabled true "no_such_switch" true]

/-- A command with other white space and one that is refused, while listeners fail. -/
theorem execute_follows_grammar_for_listeners :
    disturbed.signal.Contains ∧
      (∃ nested, Trace (⟨Descriptor.mouseEnabled, true⟩ :: nested) disturbed
        (execute "  /set mouse_enabled\ton" disturbed (.sample [])).2.1) ∧
      execute "  /set mouse_enabled\ton" disturbed (.sample []) =
        execute "/set mouse_enabled on" disturbed (.sample []) ∧
      (execute "/set mouse_enabled ON" disturbed (.sample [])).2 = (disturbed, .sample []) := by
  have hSignal : disturbed.signal.Contains := fun _ => rfl
  obtain ⟨_, _, _, _, hSets, _, hSame⟩ := execute_follows_grammar "/set mouse_enabled on" disturbed
    (.sample []) hSignal
  obtain ⟨_, _, _, _, _, hNone, _⟩ := execute_follows_grammar "/set mouse_enabled ON" disturbed
    (.sample []) hSignal
  have hSpaced := hSame "  /set mouse_enabled\ton" (by decide)
  obtain ⟨_, nested, hTrace, _⟩ :=
    hSets Descriptor.mouseEnabled true (by decide) (by decide)
  have hWords : Text.words "/set mouse_enabled ON" = [word, Descriptor.mouseEnabled, "ON"] := by
    decide
  refine ⟨hSignal, ⟨nested, ?_⟩, hSpaced, hNone ?_⟩
  · rw [hSpaced]
    exact hTrace
  · rintro id on _ hSets
    rw [hWords] at hSets
    have hToken : Text.ofString "ON" = Toggle.word on :=
      Option.some.inj (congrArg List.getLast? hSets)
    cases on with
    | false => exact absurd hToken (by decide)
    | true => exact absurd hToken (by decide)

theorem run_of_refusal {reply : Reply} (hSignal : r.signal.Contains)
    (hReply : (run args r host).1 = .ok reply) (hRefused : reply.success = false) :
    (run args r host).2 = (r, host) ∧ NamesFirst r.ids args reply.output := by
  rcases run_cases hSignal args host with
    ⟨id, on, s, _, _, hRun⟩ | ⟨output, _, hRun⟩ | ⟨output, _, hNames, hRun⟩
  · rw [hRun] at hReply
    cases hReply
    cases hRefused
  · rw [hRun] at hReply
    cases hReply
    cases hRefused
  · rw [hRun] at hReply ⊢
    cases hReply
    exact ⟨rfl, hNames⟩

/-- A refusal leaves the registry and the host as they were, whatever listeners there are. Where it
says that there is no such switch, it names the one of the line. -/
theorem refusal_changes_nothing (line : Text) (r : Registry) (host : Host) (reply : Reply)
    (hSignal : r.signal.Contains) (hReply : (execute line r host).1 = .ok (some reply))
    (hRefused : reply.success = false) :
    (execute line r host).2 = (r, host) ∧
      ∀ named : Text, reply.output = "no such setting: " ++ named →
        line.words[1]? = some named ∧ named ∉ r.ids := by
  by_cases hHead : line.words.head? = some word
  · have hWords := words_eq_cons hHead
    generalize line.words.tail = args at hWords
    obtain ⟨other, hRun, _⟩ := exists_reply_iff_accepts hSignal args host
    rw [execute_of_words hWords hRun] at hReply ⊢
    obtain rfl : other = reply := Option.some.inj (Except.ok.inj hReply)
    obtain ⟨hState, hNames⟩ := run_of_refusal hSignal hRun hRefused
    refine ⟨hState, ?_⟩
    intro named hOutput
    obtain ⟨hFirst, hUnknown⟩ := hNames named hOutput
    rw [hWords, List.getElem?_cons_succ, ← List.head?_eq_getElem?]
    exact ⟨hFirst, hUnknown⟩
  · rw [execute_of_other hHead] at hReply
    cases hReply

/-- That listeners ask for a switch which is not there is no refusal. That the line does is one, and
it is the only one to be told. -/
theorem refusal_changes_nothing_for_listeners :
    let quiet := Host.sample []
    disturbed.signal.Contains ∧
    (∃ text, (execute "/set mouse_enabled on" disturbed quiet).1 = .ok (some ⟨true, text⟩)) ∧
    (execute "/set another_switch on" disturbed quiet).1 =
      .ok (some ⟨false, "no such setting: " ++ Text.ofString "another_switch"⟩) ∧
    (execute "/set another_switch on" disturbed quiet).2 = (disturbed, quiet) ∧
    Text.ofString "another_switch" ∉ disturbed.ids := by
  have hSignal : disturbed.signal.Contains := fun _ => rfl
  have hUnknown : Text.ofString "another_switch" ∉ disturbed.ids := by decide
  have hKnown : Descriptor.mouseEnabled ∈ disturbed.ids := by decide
  obtain ⟨s, hSetting⟩ := (disturbed.mem_ids_iff _).mp hKnown
  have hSets : Text.words "/set mouse_enabled on" =
      [word, Descriptor.mouseEnabled, Toggle.word true] := by decide
  have hMissing : Text.words "/set another_switch on" =
      [word, "another_switch", Toggle.word true] := by decide
  have hAccepted := execute_of_words hSets
    (congrArg Prod.fst (toggle_of_known hSignal hSetting true (Host.sample [])))
  have hRefused := execute_of_words hMissing
    (congrArg Prod.fst (toggle_of_unknown ((disturbed.setting?_eq_none_iff _).mpr hUnknown) true
      (Host.sample [])))
  obtain ⟨hState, hNames⟩ := refusal_changes_nothing _ disturbed (Host.sample []) _ hSignal
    (congrArg Prod.fst hRefused) rfl
  exact ⟨hSignal, ⟨_, congrArg Prod.fst hAccepted⟩, congrArg Prod.fst hRefused, hState,
    (hNames _ rfl).2⟩

/-- With a signal that lets failures come back, what a listener has asked for is reported as if the
line had, although the switch of the line has been set. -/
theorem refusal_after_change_with_passing_signal :
    let r := { disturbed with signal := Registry.passing }
    let executed := execute "/set mouse_enabled on" r (.sample [])
    executed.1.toOption =
        some (some ⟨false, "no such setting: " ++ Text.ofString "no_such_switch"⟩) ∧
      (executed.2.1.get Descriptor.mouseEnabled).toOption = some true := by
  refine ⟨?_, ?_⟩
  · decide +kernel
  · decide +kernel

end SetCommand

end Switchboard
