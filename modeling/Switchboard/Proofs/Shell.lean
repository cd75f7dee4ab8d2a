import Switchboard.Proofs.Client.Readiness
import Switchboard.Shell

/-!
# The protocol of the shell

A dialogue takes the lines of the input one after the other. A line that asks to quit ends it at
once or, when quitting is to be confirmed, asks a question that the next line answers; every other
line is handled by the client, once. Running the shell comes to the dialogue over its input: what is
written are the questions and the replies, what is left is the input behind the line that ended it,
and nothing but the lines handled has reached the client and its transcript.
-/

namespace Switchboard

open FileTree

namespace Shell

/-- What the user is shown for one or two lines of input. -/
inductive Exchange
  | asked
  | handled (line : Text) (reply : Option Reply)

def Exchange.output : Exchange → Text
  | asked => question
  | handled _ none => []
  | handled _ (some reply) => reply.output ++ [Text.newline]

def Exchange.line? : Exchange → Option Text
  | asked => none
  | handled line _ => some line

def output (exchanges : List Exchange) : Text :=
  exchanges.flatMap Exchange.output

def handledLines (exchanges : List Exchange) : List Text :=
  exchanges.filterMap Exchange.line?

/-- A line of input, with the line feed that ends it unless the input ends first. -/
def Reads (raw line : Text) : Prop :=
  Text.newline ∉ line ∧ (raw = line ∨ raw = line ++ [Text.newline])

/-- An answer that starts with the letter y agrees. -/
def Agrees (answer : Text) : Prop :=
  answer.strip.head? = some (CodePoint.ofChar 'y') ∨
    answer.strip.head? = some (CodePoint.ofChar 'Y')

/-- From the lines of an input and a client, a dialogue goes through some exchanges, leaves some of
the lines, and leaves the client in some state. -/
inductive Dialogue : List Text → Client × Host → List Exchange → List Text → Client × Host → Prop
  | ended (s : Client × Host) : Dialogue [] s [] [] s
  | quit {raw line : Text} {rest : List Text} {s : Client × Host} (hLine : Reads raw line)
      (hQuit : line.strip = quitWord)
      (hAsk : s.1.registry.isOn Descriptor.confirmQuit = .ok false) :
      Dialogue (raw :: rest) s [] rest s
  | unanswered {raw line : Text} {s : Client × Host} (hLine : Reads raw line)
      (hQuit : line.strip = quitWord)
      (hAsk : s.1.registry.isOn Descriptor.confirmQuit = .ok true) :
      Dialogue [raw] s [.asked] [] s
  | confirmed {raw line answer : Text} {rest : List Text} {s : Client × Host}
      (hLine : Reads raw line) (hQuit : line.strip = quitWord)
      (hAsk : s.1.registry.isOn Descriptor.confirmQuit = .ok true) (hAnswer : Agrees answer) :
      Dialogue (raw :: answer :: rest) s [.asked] rest s
  | declined {raw line answer : Text} {rest left : List Text} {s last : Client × Host}
      {exchanges : List Exchange} (hLine : Reads raw line) (hQuit : line.strip = quitWord)
      (hAsk : s.1.registry.isOn Descriptor.confirmQuit = .ok true) (hAnswer : ¬ Agrees answer)
      (hRest : Dialogue rest s exchanges left last) :
      Dialogue (raw :: answer :: rest) s (.asked :: exchanges) left last
  | handled {raw line : Text} {reply : Option Reply} {rest left : List Text}
      {s after last : Client × Host} {exchanges : List Exchange} (hLine : Reads raw line)
      (hOther : line.strip ≠ quitWord) (hReply : s.1.handleLine line s.2 = (.ok reply, after))
      (hRest : Dialogue rest after exchanges left last) :
      Dialogue (raw :: rest) s (.handled line reply :: exchanges) left last

variable {raw line answer t : Text} {lines rest left : List Text} {exchanges : List Exchange}
  {s last : Client × Host} {host : Host}

/-! ## Lines -/

theorem exists_reads (h : raw ∈ t.inputLines) : ∃ line, Reads raw line := by
  induction t generalizing raw with
  | nil => cases h
  | cons c rest ih =>
    rw [Text.inputLines] at h
    split at h
    · rcases List.mem_cons.mp h with rfl | hRest
      · exact ⟨[], List.not_mem_nil, .inr rfl⟩
      · exact ih hRest
    · rename_i hOther
      have hSingle : Reads [c] [c] := by
        refine ⟨?_, .inl rfl⟩
        rw [List.mem_singleton]
        exact Ne.symm hOther
      split at h
      · obtain rfl := List.mem_singleton.mp h
        exact ⟨_, hSingle⟩
      · rename_i first others hLines
        rw [hLines] at ih
        rcases List.mem_cons.mp h with rfl | hRest
        · obtain ⟨line, hNone, hRaw⟩ := ih List.mem_cons_self
          refine ⟨c :: line, ?_, ?_⟩
          · rw [List.mem_cons, not_or]
            exact ⟨Ne.symm hOther, hNone⟩
          · rcases hRaw with rfl | rfl
            · exact .inl rfl
            · exact .inr rfl
        · exact ih (List.mem_cons_of_mem _ hRest)

theorem Reads.dropTrailingNewlines (h : Reads raw line) : raw.dropTrailingNewlines = line := by
  obtain ⟨hNone, hRaw⟩ := h
  have hKept : line.reverse.dropWhile (· == Text.newline) = line.reverse := by
    cases hReverse : line.reverse with
    | nil => rfl
    | cons c rest =>
      have hMem : c ∈ line := List.mem_reverse.mp (hReverse ▸ List.mem_cons_self)
      refine List.dropWhile_cons_of_neg ?_
      rintro hBreak
      exact hNone (beq_iff_eq.mp hBreak ▸ hMem)
  rw [Text.dropTrailingNewlines]
  rcases hRaw with rfl | rfl
  · rw [hKept, List.reverse_reverse]
  · rw [List.reverse_concat, List.dropWhile_cons_of_pos (by rfl), hKept, List.reverse_reverse]

theorem isYes_iff (answer : Text) : isYes answer = true ↔ Agrees answer := by
  rw [isYes, Agrees]
  cases answer.strip with
  | nil => simp
  | cons c rest => simp

/-! ## One line -/

theorem take_quit (hLine : Reads raw line) (hQuit : line.strip = quitWord) {c : Client}
    {asks : Bool} (hAsk : c.registry.isOn Descriptor.confirmQuit = .ok asks) :
    take raw { client := c } host =
      (.ok (if asks then question else []), { client := c, asking := asks, stopped := !asks },
        host) := by
  rw [take, if_neg Bool.false_ne_true, hLine.dropTrailingNewlines, if_pos hQuit, hAsk]
  cases asks with
  | true => rfl
  | false => rfl

theorem take_answer (answer : Text) (c : Client) (host : Host) :
    take answer { client := c, asking := true } host =
      (.ok [], { client := c, stopped := isYes answer }, host) := rfl

theorem take_other (hLine : Reads raw line) (hOther : line.strip ≠ quitWord) {c after : Client}
    {reply : Option Reply} {later : Host}
    (hReply : c.handleLine line host = (.ok reply, after, later)) :
    take raw { client := c } host =
      (.ok (Exchange.handled line reply).output, { client := after }, later) := by
  rw [take, if_neg Bool.false_ne_true, hLine.dropTrailingNewlines, if_neg hOther, hReply]
  cases reply with
  | none => rfl
  | some reply => rfl

/-! ## All lines -/

theorem takeLines_cons {before after last : Shell} {later final : Host} {written more : Text}
    (hGoing : before.stopped = false) (hTake : before.take raw host = (.ok written, after, later))
    (hRest : takeLines lines after later = (.ok (more, left), last, final)) :
    takeLines (raw :: lines) before host = (.ok (written ++ more, left), last, final) := by
  rw [takeLines, if_neg (Bool.eq_false_iff.mp hGoing), hTake]
  dsimp only
  rw [hRest]

theorem takeLines_stopped (lines : List Text) (c : Client) (host : Host) :
    takeLines lines { client := c, stopped := true } host =
      (.ok ([], lines), { client := c, stopped := true }, host) := by
  cases lines with
  | nil => rfl
  | cons raw rest => rfl

/-- Taking the lines of an input follows the dialogue over them. -/
theorem Dialogue.takeLines_eq (h : Dialogue lines s exchanges left last) : ∃ asking,
    takeLines lines { client := s.1 } s.2 =
      (.ok (output exchanges, left), { client := last.1, asking, stopped := true }, last.2) := by
  -- over the dialogue; an exchange with a question takes two lines
  induction h with
  | ended s => exact ⟨false, rfl⟩
  | quit hLine hQuit hAsk =>
    exact ⟨false, takeLines_cons rfl (take_quit hLine hQuit hAsk) (takeLines_stopped _ _ _)⟩
  | unanswered hLine hQuit hAsk =>
    exact ⟨true, takeLines_cons rfl (take_quit hLine hQuit hAsk) rfl⟩
  | confirmed hLine hQuit hAsk hAnswer =>
    refine ⟨false, takeLines_cons rfl (take_quit hLine hQuit hAsk) ?_⟩
    refine takeLines_cons rfl (take_answer _ _ _) ?_
    rw [(isYes_iff _).mpr hAnswer]
    exact takeLines_stopped _ _ _
  | declined hLine hQuit hAsk hAnswer hRest ih =>
    obtain ⟨asking, hLines⟩ := ih
    refine ⟨asking, takeLines_cons rfl (take_quit hLine hQuit hAsk) ?_⟩
    refine takeLines_cons rfl (take_answer _ _ _) ?_
    rw [Bool.eq_false_iff.mpr (mt (isYes_iff _).mp hAnswer)]
    exact hLines
  | handled hLine hOther hReply hRest ih =>
    obtain ⟨asking, hLines⟩ := ih
    exact ⟨asking, takeLines_cons rfl (take_other hLine hOther hReply) hLines⟩

theorem Dialogue.run_eq {input : Text}
    (h : Dialogue input.inputLines s exchanges left last) :
    Shell.run input s.1 s.2 = (.ok ⟨0, output exchanges, left.flatten⟩, last) := by
  obtain ⟨asking, hLines⟩ := h.takeLines_eq
  rw [Shell.run, hLines]

theorem Dialogue.suffix (h : Dialogue lines s exchanges left last) : left <:+ lines := by
  induction h with
  | ended s => exact List.suffix_rfl
  | quit => exact List.suffix_cons _ _
  | unanswered => exact List.suffix_cons _ _
  | confirmed => exact (List.suffix_cons _ _).trans (List.suffix_cons _ _)
  | declined _ _ _ _ _ ih => exact (ih.trans (List.suffix_cons _ _)).trans (List.suffix_cons _ _)
  | handled _ _ _ _ ih => exact ih.trans (List.suffix_cons _ _)

/-! ## What reaches the client -/

def handleAll (lines : List Text) (s : Client × Host) : Client × Host :=
  lines.foldl (fun s line => (s.1.handleLine line s.2).2) s

theorem Dialogue.last_eq (h : Dialogue lines s exchanges left last) :
    last = handleAll (handledLines exchanges) s := by
  induction h with
  | ended s => rfl
  | quit => rfl
  | unanswered => rfl
  | confirmed => rfl
  | declined _ _ _ _ _ ih => exact ih
  | @handled raw line reply rest left s after last exchanges hLine hOther hReply hRest ih =>
    have hAfter : after = (s.1.handleLine line s.2).2 := by rw [hReply]
    rw [ih, hAfter]
    rfl

theorem exists_dialogue {logDirectory : FilePath} (hNameable : ¬ logDirectory.Unnameable)
    (hReady : s.1.Ready logDirectory s.2.tree) (hLines : ∀ raw ∈ lines, ∃ line, Reads raw line) :
    ∃ exchanges left last, Dialogue lines s exchanges left last := by
  induction hLength : lines.length using Nat.strong_induction_on generalizing lines s with
  | _ count ih =>
    cases lines with
    | nil => exact ⟨_, _, _, .ended s⟩
    | cons raw rest =>
      obtain ⟨line, hLine⟩ := hLines raw List.mem_cons_self
      rw [List.forall_mem_cons] at hLines
      by_cases hQuit : line.strip = quitWord
      · obtain ⟨asks, hAsk⟩ :=
          Registry.exists_isOn (hReady.known Descriptor.confirmQuit (by decide))
        cases asks with
        | false => exact ⟨_, _, _, .quit hLine hQuit hAsk⟩
        | true =>
          cases rest with
          | nil => exact ⟨_, _, _, .unanswered hLine hQuit hAsk⟩
          | cons answer rest =>
            by_cases hAnswer : Agrees answer
            · exact ⟨_, _, _, .confirmed hLine hQuit hAsk hAnswer⟩
            · obtain ⟨exchanges, left, last, hRest⟩ := ih rest.length
                (by simp only [List.length_cons] at hLength; omega) hReady
                (List.forall_mem_cons.mp hLines.2).2 rfl
              exact ⟨_, _, _, .declined hLine hQuit hAsk hAnswer hRest⟩
      · obtain ⟨reply, hReply⟩ := hReady.exists_reply hNameable line
        obtain ⟨after, hHandle⟩ : ∃ after, s.1.handleLine line s.2 = (.ok reply, after) :=
          ⟨_, by rw [← hReply]⟩
        have hAfter : after.1.Ready logDirectory after.2.tree := by
          have hGains := (hReady.handleLine line).ready
          rwa [hHandle] at hGains
        obtain ⟨exchanges, left, last, hRest⟩ := ih rest.length
          (by simp only [List.length_cons] at hLength; omega) hAfter hLines.2 rfl
        exact ⟨_, _, _, .handled hLine hQuit hHandle hRest⟩

/-! ## What the transcript gains -/

/-- The lines that are for the transcript when the client handles some lines in turn. -/
def loggedLines : List Text → Client × Host → List Text
  | [], _ => []
  | line :: rest, s =>
    (if s.1.logs line then [line] else []) ++ loggedLines rest (s.1.handleLine line s.2).2

/-- The lines that files accept in the meantime. -/
def acceptedLines : List Text → Client × Host → List Entry
  | [], _ => []
  | line :: rest, s =>
    s.1.lineAcceptance line s.2 ++ acceptedLines rest (s.1.handleLine line s.2).2

/-- Whether the transcript works whenever there is a line for it. -/
def undisturbed : List Text → Client × Host → Bool
  | [], _ => true
  | line :: rest, s =>
    (!s.1.logs line || s.1.transcript.isWorking s.2) &&
      undisturbed rest (s.1.handleLine line s.2).2

theorem ready_handleAll {logDirectory : FilePath} (lines : List Text)
    (h : s.1.Ready logDirectory s.2.tree) :
    Client.Gains (acceptedLines lines s) logDirectory s.2 (handleAll lines s).1
      (handleAll lines s).2 := by
  induction lines generalizing s with
  | nil => exact h.gains
  | cons line rest ih =>
    have hLine := h.handleLine line
    exact hLine.trans (ih hLine.ready)

theorem path_of_mem_acceptedLines {logDirectory : FilePath} (h : s.1.Ready logDirectory s.2.tree)
    {entry : Entry} (hEntry : entry ∈ acceptedLines lines s) :
    ∃ clock, entry.1 = (logDirectory.child (Transcript.fileName clock)).direct := by
  induction lines generalizing s with
  | nil => cases hEntry
  | cons line rest ih =>
    rcases List.mem_append.mp hEntry with hFirst | hRest
    · rw [Client.lineAcceptance_eq] at hFirst
      split at hFirst
      · rw [← h.logs]
        exact Transcript.path_of_mem_writeAcceptance h.tidy hFirst
      · cases hFirst
    · exact ih (h.handleLine line).ready hRest

/-- Undisturbed, the transcript takes exactly those of its lines that have a byte form. -/
theorem acceptedLines_of_undisturbed (h : undisturbed lines s = true) :
    (acceptedLines lines s).map Prod.snd =
      (loggedLines lines s).filter fun line => line.Encodable := by
  induction lines generalizing s with
  | nil => rfl
  | cons line rest ih =>
    rw [undisturbed, Bool.and_eq_true] at h
    rw [acceptedLines, loggedLines, List.map_append, List.filter_append, ih h.2,
      Client.lineAcceptance_eq]
    congr 1
    cases hLogs : s.1.logs line with
    | false => rfl
    | true =>
      rw [hLogs] at h
      rw [if_pos rfl, if_pos rfl, Transcript.writeAcceptance_of_isWorking line h.1,
        List.filter_singleton, Bool.cond_decide]

/-- Whatever a started client has been through and whatever the input, the shell goes through the
dialogue over its lines: it ends with the code zero, writes the questions and the replies, leaves
the lines behind the one that ended it, and lets the client handle the others once each, except quit
lines and answers. Undisturbed, the transcript gains those lines handled while logging is on that
are no command and have a byte form. -/
theorem run_follows_dialogue (settingsDirectory logDirectory : FilePath) (backend : Option Backend)
    (hAskable : ∀ given, backend = some given → given.Askable)
    (hNameable : ¬ logDirectory.Unnameable)
    (first afterStart host : Host) (started c : Client) (steps : List Client.Step)
    (hStart : Client.start settingsDirectory logDirectory backend first = (.ok started, afterStart))
    (hRun : Client.run steps (started, afterStart) = (c, host)) (input : Text) :
    (∃ exchanges left last, Dialogue input.inputLines (c, host) exchanges left last) ∧
    ∀ exchanges left last, Dialogue input.inputLines (c, host) exchanges left last →
      Shell.run input c host = (.ok ⟨0, output exchanges, left.flatten⟩, last) ∧
      left <:+ input.inputLines ∧
      last = handleAll (handledLines exchanges) (c, host) ∧
      (undisturbed (handledLines exchanges) (c, host) = true → ∃ entries : List Entry,
        (entries.map Prod.snd = (loggedLines (handledLines exchanges) (c, host)).filter
          fun line => line.Encodable) ∧
        (∀ entry ∈ entries, ∃ clock,
          entry.1 = (logDirectory.child (Transcript.fileName clock)).direct) ∧
        ∀ clock, last.2.tree.contentsAt (logDirectory.child (Transcript.fileName clock)) =
          host.tree.contentsAt (logDirectory.child (Transcript.fileName clock)) ++
            textAt (logDirectory.child (Transcript.fileName clock)) entries) := by
  have hReady : c.Ready logDirectory host.tree := Client.ready_of_run hAskable hStart hRun
  refine ⟨exists_dialogue (s := (c, host)) hNameable hReady fun raw => exists_reads, ?_⟩
  intro exchanges left last hDialogue
  refine ⟨hDialogue.run_eq, hDialogue.suffix, hDialogue.last_eq, fun hUndisturbed => ?_⟩
  refine ⟨acceptedLines (handledLines exchanges) (c, host),
    acceptedLines_of_undisturbed hUndisturbed,
    fun entry => path_of_mem_acceptedLines (s := (c, host)) hReady, fun clock => ?_⟩
  rw [hDialogue.last_eq]
  exact (ready_handleAll (s := (c, host)) _ hReady).contents _ ⟨logDirectory, clock, rfl⟩

def sampleLogs : FilePath := ⟨"/", ["logs"]⟩

def sampleLog : FilePath := sampleLogs.child (Transcript.fileName (Host.sample []).clock)

def sampleInput : Text :=
  "/set logging_enabled on\nlook\n/quit\n/set logging_enabled off\nnorth\n /quit\nYes\nsouth\n"

/-- An answer that spells a command is only an answer, and what follows the end is left. -/
theorem run_follows_dialogue_to_sample_end :
    (∀ given, some (Backend.script {}) = some given → given.Askable) ∧ ¬ sampleLogs.Unnameable ∧
      ∃ started afterStart c host,
        Client.start ⟨"/", ["config"]⟩ sampleLogs (some (.script {})) (Host.sample []) =
          (.ok started, afterStart) ∧
        Client.run [.line "early"] (started, afterStart) = (c, host) ∧ ∃ exchanges left last,
        Dialogue sampleInput.inputLines (c, host) exchanges left last ∧
        output exchanges = "logging_enabled = on\nReally quit? (y/n) Really quit? (y/n) " ∧
        left.flatten = "south\n" ∧
        last.1.history.entries =
          (["early", "/set logging_enabled on", "look", "north"] : List Text) ∧
        last.2.tree.contentsAt sampleLog = Utf8.encodeLossy "look\nnorth\n" := by
  have hAskable : ∀ given, some (Backend.script {}) = some given → given.Askable := by
    rintro _ ⟨⟩
    trivial
  have hNameable : ¬ sampleLogs.Unnameable := by decide
  refine ⟨hAskable, hNameable, _, _, _, _, rfl, rfl, ?_⟩
  obtain ⟨⟨exchanges, left, last, hDialogue⟩, hFollows⟩ := run_follows_dialogue ⟨"/", ["config"]⟩
    sampleLogs _ hAskable hNameable (Host.sample []) _ _ _ _ [.line "early"] rfl rfl sampleInput
  obtain ⟨hRun, _⟩ := hFollows exchanges left last hDialogue
  have hOutput := congrArg (fun ran => ran.1.toOption.map Session.output) hRun
  have hUnread := congrArg (fun ran => ran.1.toOption.map Session.unread) hRun
  have hEntries := congrArg (fun ran => ran.2.1.history.entries) hRun
  have hContents := congrArg (fun ran => ran.2.2.tree.contentsAt sampleLog) hRun
  refine ⟨exchanges, left, last, hDialogue, ?_, ?_, ?_, ?_⟩
  · exact Option.some.inj (hOutput.symm.trans (by decide +kernel))
  · exact Option.some.inj (hUnread.symm.trans (by decide +kernel))
  · exact hEntries.symm.trans (by decide +kernel)
  · exact hContents.symm.trans (by decide +kernel)

def surrogateLine : Text := [0xD800]

def surrogateInput : Text :=
  "/set logging_enabled on\n" ++ surrogateLine ++ "\nlook\n"

/-- A line without a byte form is handled while logging is on, and nothing fails, but the transcript
does not gain it. In a directory that the system cannot be given, a line to be logged ends the
shell with an error. -/
theorem line_not_logged_without_byte_form :
    (∃ c host, Client.start ⟨"/", ["config"]⟩ sampleLogs (some (.script {})) (Host.sample []) =
        (.ok c, host) ∧ host.faults = {} ∧
      (Shell.run surrogateInput c host).1.toOption = some ⟨0, "logging_enabled = on\n", []⟩ ∧
      (Shell.run surrogateInput c host).2.1.history.entries =
        (["/set logging_enabled on", surrogateLine, "look"] : List Text) ∧
      loggedLines ["/set logging_enabled on", surrogateLine, "look"] (c, host) =
        [surrogateLine, "look"] ∧
      (Shell.run surrogateInput c host).2.2.tree.contentsAt sampleLog =
        Utf8.encodeLossy "look\n") ∧
    ∃ c host, Client.start ⟨"/", ["config"]⟩ ⟨"/", [[0]]⟩ (some (.script {})) (Host.sample []) =
        (.ok c, host) ∧ host.faults = {} ∧
      (Shell.run "/set logging_enabled on\nlook\n" c host).1.toOption = none := by
  refine ⟨⟨_, _, rfl, rfl, ?_, ?_, ?_, ?_⟩, _, _, rfl, rfl, ?_⟩
  · decide +kernel
  · decide +kernel
  · decide +kernel
  · decide +kernel
  · decide +kernel

end Shell

end Switchboard
