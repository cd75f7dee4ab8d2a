import Mathlib.Data.List.Flatten
import Mathlib.Data.List.Induction
import Switchboard.Proofs.Host

/-!
# What files hold

A file that a path leads to is found by the direct form of the path as well. Appending to it adds to
what is held there and nowhere else, and making directories adds nothing.
-/

namespace Switchboard

namespace FilePath

theorem foldl_goOn_sublist (names gone : List Text) :
    (names.foldl goOn gone).reverse.Sublist (gone.reverse ++ names) := by
  induction names generalizing gone with
  | nil => simp
  | cons name rest ih =>
    refine (ih _).trans ?_
    rw [goOn]
    split
    · refine List.Sublist.append ?_ (List.sublist_cons_self name rest)
      exact List.reverse_sublist.mpr (List.tail_sublist gone)
    · simp

theorem direct_names_sublist (p : FilePath) : p.direct.names.Sublist p.names :=
  foldl_goOn_sublist p.names []

theorem not_unnameable_direct {p : FilePath} (h : ¬ p.Unnameable) : ¬ p.direct.Unnameable := by
  rintro ⟨name, hName, hUnnameable⟩
  exact h ⟨name, p.direct_names_sublist.subset hName, hUnnameable⟩

theorem joinWith_sublist (separator : Text) {ts us : List Text} (h : ts.Sublist us) :
    (Text.joinWith separator ts).Sublist (Text.joinWith separator us) := by
  have hCons : ∀ (t : Text) (rest : List Text), rest ≠ [] →
      Text.joinWith separator (t :: rest) = t ++ (separator ++ Text.joinWith separator rest) := by
    intro t rest hRest
    cases rest with
    | nil => exact absurd rfl hRest
    | cons second others => simp [Text.joinWith, List.intersperse]
  induction h with
  | slnil => exact List.Sublist.refl _
  | @cons ts us name hSub ih =>
    cases us with
    | nil =>
      rw [List.sublist_nil.mp hSub]
      exact List.nil_sublist _
    | cons second others =>
      rw [hCons name _ (List.cons_ne_nil second others), ← List.append_assoc]
      exact ih.trans (List.sublist_append_right _ _)
  | @cons_cons ts us name hSub ih =>
    cases ts with
    | nil =>
      cases us with
      | nil => exact List.Sublist.refl _
      | cons second others =>
        rw [hCons name _ (List.cons_ne_nil second others)]
        simp [Text.joinWith]
    | cons first rest =>
      have hOthers : us ≠ [] := by
        rintro rfl
        cases hSub
      rw [hCons name _ (List.cons_ne_nil first rest), hCons name _ hOthers]
      exact (List.Sublist.refl _).append ((List.Sublist.refl _).append ih)

theorem length_nameBytes_le {t u : Text} (h : t.Sublist u) :
    (Utf8.nameBytes t).length ≤ (Utf8.nameBytes u).length :=
  (h.flatMap _).length_le

theorem not_tooLong_direct {p : FilePath} (h : ¬ p.TooLong) : ¬ p.direct.TooLong := by
  unfold TooLong at h ⊢
  rw [Nat.not_lt] at h ⊢
  by_cases hNowhere : p.direct.start = [] ∧ p.direct.names = []
  · rw [toText, if_pos hNowhere]
    decide
  · have hSomewhere : ¬ (p.start = [] ∧ p.names = []) := by
      rintro ⟨hStart, hNames⟩
      refine hNowhere ⟨hStart, ?_⟩
      rw [direct, hNames]
      rfl
    rw [toText, if_neg hSomewhere] at h
    rw [toText, if_neg hNowhere]
    exact Nat.le_trans (length_nameBytes_le
      ((List.Sublist.refl _).append (joinWith_sublist _ p.direct_names_sublist))) h

theorem eq_child_of_names {p : FilePath} (h : p.names ≠ []) :
    p = (⟨p.start, p.names.dropLast⟩ : FilePath).child p.lastName := by
  obtain ⟨start, names⟩ := p
  simp only [child, lastName, FilePath.mk.injEq, true_and]
  rw [List.getLast?_eq_some_getLast h, Option.getD_some, List.dropLast_concat_getLast]

end FilePath

namespace FileTree

variable {t u : FileTree} {p q : FilePath} {contents more : Bytes}

/-! ## Direct paths -/

/-- Whether a path can be gone through to something in the directory that it leads to. -/
def Passable (t : FileTree) (p : FilePath) : Prop :=
  p.names = [] ∨ (t.Leads p ∧ t.atEnd p = .taken .directory)

theorem passable_parent (h : t.Passable p) : t.Passable p.parent := by
  by_cases hNames : p.names = []
  · exact .inl (by rw [FilePath.parent, hNames]; rfl)
  · obtain ⟨hLeads, _⟩ := h.resolve_left hNames
    rw [FilePath.eq_child_of_names hNames] at hLeads
    exact (leads_child_iff _).mp hLeads

theorem atEnd_direct_child (p : FilePath) {name : Text} (h : name ≠ FilePath.upward) :
    t.atEnd (p.child name).direct = t.atEnd (p.child name) := by
  have hLast : (p.child name).direct.lastName = (p.child name).lastName := by
    rw [FilePath.direct_child p name h, FilePath.lastName_child, FilePath.lastName_child]
  have hName : (p.child name).direct.NameTooLong ↔ (p.child name).NameTooLong := by
    rw [FilePath.NameTooLong, FilePath.NameTooLong, hLast]
  simp only [atEnd, hLast, hName, node?_congr (FilePath.location_direct _)]

theorem passable_direct (h : t.Passable p) : t.Passable p.direct := by
  obtain ⟨start, names⟩ := p
  -- over the names, the last one at the end, as a path is gone through
  induction names using List.reverseRecOn with
  | nil => exact .inl rfl
  | append_singleton names name ih =>
    change t.Passable (FilePath.child ⟨start, names⟩ name) at h
    change t.Passable (FilePath.child ⟨start, names⟩ name).direct
    obtain ⟨hLeads, hEnd⟩ := h.resolve_left (names_child_ne_nil _ _)
    have hBefore := ih ((leads_child_iff name).mp hLeads)
    by_cases hBack : name = FilePath.upward
    · rw [hBack, FilePath.direct_child_upward]
      exact passable_parent hBefore
    · refine .inr ⟨?_, (atEnd_direct_child _ hBack).trans hEnd⟩
      rw [FilePath.direct_child _ _ hBack]
      exact (leads_child_iff name).mpr hBefore

theorem occupancy_direct (h : t.occupancy p = .taken (.file contents)) :
    t.occupancy p.direct = .taken (.file contents) := by
  have hNames := names_ne_nil_of_occupancy_file h
  obtain ⟨hNameable, hLong, hLeads, hEnd⟩ := leads_of_occupancy hNames h (.inl ⟨_, rfl⟩)
  obtain ⟨hBack, _, _⟩ := node?_of_atEnd_file hEnd
  obtain ⟨above, name, rfl⟩ : ∃ above name, p = FilePath.child above name :=
    ⟨_, _, FilePath.eq_child_of_names hNames⟩
  rw [FilePath.lastName_child] at hBack
  have hChild := FilePath.direct_child above name hBack
  have hDirect : t.Leads (above.child name).direct := by
    rw [hChild]
    exact (leads_child_iff name).mpr (passable_direct ((leads_child_iff name).mp hLeads))
  rw [occupancy_of_leads (FilePath.not_unnameable_direct hNameable)
    (FilePath.not_tooLong_direct hLong)
    (by rw [hChild]; exact names_child_ne_nil _ _) hDirect, atEnd_direct_child _ hBack, hEnd]

/-! ## What is held -/

/-- What the file at a path holds; where there is none, nothing is held. -/
def contentsAt (t : FileTree) (p : FilePath) : Bytes :=
  match t.node? p with
  | some (.file contents) => contents
  | _ => []

theorem contentsAt_of_file (h : t.occupancy p = .taken (.file contents)) :
    t.contentsAt p = contents := by
  rw [contentsAt, node?_of_occupancy_file h]

theorem Extends.contentsAt {kept : FilePath → Prop} (h : Extends kept t u) (hKept : kept p) :
    u.contentsAt p = t.contentsAt p := by
  have hSame := h.same p hKept
  rw [FileTree.contentsAt, FileTree.contentsAt]
  split
  · rename_i contents hNode
    rw [(hSame contents).mpr hNode]
  · rename_i hNone
    split
    · rename_i contents hNode
      exact absurd ((hSame contents).mp hNode) (hNone contents)
    · rfl

theorem contentsAt_put (t : FileTree) (p : FilePath) (contents : Bytes) (q : FilePath) :
    (t.put p (.file contents)).contentsAt q =
      if q.location = p.location then contents else t.contentsAt q := by
  rw [contentsAt, node?_put]
  by_cases hSame : q.location = p.location
  · rw [if_pos hSame, if_pos hSame]
  · rw [if_neg hSame, if_neg hSame]
    rfl

theorem openToWrite_spec (h : t.openToWrite p = .ok contents) :
    contents = t.contentsAt p ∧ ¬ p.Unnameable ∧ ¬ p.TooLong ∧ p.names ≠ [] ∧ t.Leads p ∧
      p.lastName ≠ FilePath.upward ∧ ¬ p.NameTooLong := by
  rw [openToWrite] at h
  split at h
  · rename_i hVacant
    cases h
    have hNames := names_ne_nil_of_occupancy_vacant hVacant
    obtain ⟨hNameable, hLong, hLeads, hEnd⟩ := leads_of_occupancy hNames hVacant (.inr rfl)
    obtain ⟨hBack, hName, hNone⟩ := node?_of_atEnd_vacant hEnd
    refine ⟨?_, hNameable, hLong, hNames, hLeads, hBack, hName⟩
    rw [contentsAt, hNone]
  · have hFile := read_eq_ok_iff.mp h
    have hNames := names_ne_nil_of_occupancy_file hFile
    obtain ⟨hNameable, hLong, hLeads, hEnd⟩ := leads_of_occupancy hNames hFile (.inl ⟨_, rfl⟩)
    obtain ⟨hBack, hName, _⟩ := node?_of_atEnd_file hEnd
    exact ⟨(contentsAt_of_file hFile).symm, hNameable, hLong, hNames, hLeads, hBack, hName⟩

theorem openToWrite_of_file (h : t.occupancy p = .taken (.file contents)) :
    t.openToWrite p = .ok contents := by
  rw [openToWrite, h]
  exact read_eq_ok_iff.mpr h

/-- Where a file can be opened to be written, the path leads to whatever file is put there. -/
theorem occupancy_put_of_openToWrite (h : t.openToWrite p = .ok contents) (later : Bytes) :
    (t.put p (.file later)).occupancy p = .taken (.file later) := by
  obtain ⟨_, hNameable, hLong, hNames, hLeads, hBack, hName⟩ := openToWrite_spec h
  have hGrown := extends_put_file (node?_of_openToWrite h) later
  rw [occupancy_of_leads hNameable hLong hNames (hGrown.leads hLeads)]
  refine atEnd_of_node? hBack hName ?_
  rw [node?_put, if_pos rfl]

/-- What is appended to a path is added to the file there, which is made if it is missing. -/
theorem append_spec (h : t.append p more = .ok u) :
    u.occupancy p = .taken (.file (t.contentsAt p ++ more)) ∧
      ∀ q, u.contentsAt q = t.contentsAt q ++ if q.location = p.location then more else [] := by
  rw [append] at h
  split at h
  · rename_i contents hOpen
    cases h
    obtain ⟨rfl, _⟩ := openToWrite_spec hOpen
    constructor
    · exact occupancy_put_of_openToWrite hOpen _
    · intro q
      rw [contentsAt_put]
      by_cases hSame : q.location = p.location
      · rw [if_pos hSame, if_pos hSame, contentsAt, contentsAt, node?_congr hSame]
      · rw [if_neg hSame, if_neg hSame, List.append_nil]
  · cases h

theorem unnameable_of_append {e : FileError} (h : t.append p more = .error e)
    (hSystem : e.isFromSystem = false) : p.Unnameable := by
  rw [append] at h
  split at h
  · cases h
  · rename_i refusal hOpen
    cases h
    exact unnameable_of_openToWrite hOpen hSystem

end FileTree

end Switchboard
