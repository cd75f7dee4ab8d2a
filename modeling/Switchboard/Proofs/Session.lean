import Switchboard.Proofs.Client.Aftermath

/-!
# Sessions one after the other

A session is a client from its start to the end of its process, with a shutdown on the way. Each
session starts from the files that the ones before it have left. A start takes the positions from
the settings file. A session that has made all its saves, the last one with success, leaves its
positions there, so the next one starts with them. What is still waiting when the process ends is
lost; a shutdown that ends without an error leaves nothing waiting.
-/

namespace Switchboard

open FileTree
open RecordFile (recordAt Reaches underFaults)

namespace Registry

theorem Closed.outstanding {r : Registry} {path : FilePath} {ds : List Descriptor}
    {tree : FileTree} (h : r.Closed) (hServes : Serves path ds r tree) : r.outstanding = [] := by
  obtain ⟨q, hQueue, hClosed⟩ := h
  obtain ⟨other, _, hOther, hOrderly, _⟩ := hServes
  obtain rfl : q = other := Option.some.inj (hQueue.symm.trans hOther)
  rw [Registry.outstanding, hQueue]
  exact WriteQueue.outstanding_of_idle (hOrderly.idle hClosed)

theorem Serves.idle {first r : Registry} {path : FilePath} {ds : List Descriptor}
    {tree : FileTree} (h : Serves path ds r tree) (hInStep : InStep first r)
    (hNone : r.assigned = []) : r.outstanding = [] ∧ r.outcomes = [] := by
  obtain ⟨q, _, hQueue, _, ⟨_, _, hKeeps, _⟩, _⟩ := h
  obtain ⟨other, hOther, _, hLedger⟩ := hInStep.queue
  obtain rfl : q = other := Option.some.inj (hQueue.symm.trans hOther)
  rw [hNone] at hLedger
  obtain ⟨hAttempts, hOutstanding⟩ := List.append_eq_nil_iff.mp hLedger
  have hTold := hKeeps.told
  rw [hAttempts] at hTold
  rw [outstanding, outcomes, hQueue]
  exact ⟨hOutstanding, List.length_eq_zero_iff.mp hTold⟩

end Registry

namespace Client

/-- While a client starts, nothing keeps a file from being opened. -/
structure Session where
  opening : Faults
  readable : opening.openFile = none
  steps : List Step
  /-- What happens between the shutdown and the end of the process. -/
  afterwards : List Step := []

/-- How the shutdown ends, and what the process leaves. -/
def Session.play (settingsDirectory logDirectory : FilePath) (s : Session) (host : Host) :
    Except Failure (Except Failure Unit × Client) × Host :=
  match Client.start settingsDirectory logDirectory none (underFaults s.opening host) with
  | (.error e, host) => (.error e, host)
  | (.ok c, host) =>
    let (c, host) := run s.steps (c, host)
    let (ended, c, host) := c.shutdown host
    let (c, host) := run s.afterwards (c, host)
    (.ok (ended, c), host)

variable {settingsDirectory logDirectory : FilePath} {host : Host} {c : Client} {heldText : Prop}

/-! ## The end of a session -/

/-- With nothing left to attempt and the last attempt a success, the settings file gives the
positions in memory. -/
theorem Sound.stored (h : Sound settingsDirectory logDirectory heldText c host.tree)
    (hNone : c.registry.outstanding = [])
    (hLast : c.registry.outcomes = [] ∨ c.registry.outcomes.getLast? = some none) :
    c.registry.settings = stored settingsDirectory host.tree := by
  obtain ⟨q, wanted, hQueue, _, hServes, hSettings⟩ := h.registry
  rw [Registry.outstanding, hQueue] at hNone
  rw [Registry.outcomes, hQueue] at hLast
  rw [hSettings, Client.stored]
  exact congrArg (Registry.positions Descriptor.table)
    (funext fun name => (hServes.recordAt hNone hLast name).symm)

end Client

end Switchboard
