import Mathlib.Data.List.Sort
import CheckedScript.Config.Overlay
import CheckedScript.Proofs.Guards

/-!
Merging overlays. Without replacement, the list of implicit commands keeps its order, less what is
removed, and what is new comes behind it where it is first added. No overlay brings in a duplicate
unless it replaces the list by one that has it, and merging one a second time changes nothing,
unless it removes what it adds.

Main results:
* `Config.apply_apply`: an overlay merged a second time.
* `Config.overlays_merge_exactly`: the list of implicit commands after any overlays.
-/

namespace CheckedScript.Config

/-- The entries of `add` that are not in `kept`, each once, in the order in which they first
occur. -/
structure NewEntries (kept add new : List String) : Prop where
  mem_iff : ∀ item, item ∈ new ↔ item ∈ add ∧ item ∉ kept
  ordered : new.Pairwise fun a b => add.idxOf a < add.idxOf b

/-! ## First occurrences -/

/-- Erasing duplicates leaves the entries in the order of their first occurrences, also among
entries that are left out. -/
theorem pairwise_eraseDups (items : List String) (q : String → Bool) :
    (items.filter q).eraseDups.Pairwise fun a b => items.idxOf a < items.idxOf b := by
  induction items generalizing q with
  | nil => simp
  | cons first items ih =>
    -- Entries other than the first one stand one place further back than without it.
    have hbehind : ∀ item, item ≠ first →
        (first :: items).idxOf item = items.idxOf item + 1 := by
      intro item hne
      exact List.idxOf_cons_ne _ (Ne.symm hne)
    have hothers : ∀ q' : String → Bool, q' first = false →
        (items.filter q').eraseDups.Pairwise
          fun a b => (first :: items).idxOf a < (first :: items).idxOf b := by
      intro q' hfirst
      have hne : ∀ item ∈ (items.filter q').eraseDups, item ≠ first := by
        rintro item hitem rfl
        rw [List.mem_eraseDups, List.mem_filter, hfirst] at hitem
        cases hitem.2
      refine (ih q').imp_of_mem fun ha hb hlt => ?_
      rw [hbehind _ (hne _ ha), hbehind _ (hne _ hb)]
      exact Nat.succ_lt_succ hlt
    cases hq : q first with
    | false =>
      rw [List.filter_cons_of_neg (by simp [hq])]
      exact hothers q hq
    | true =>
      rw [List.filter_cons_of_pos hq, List.eraseDups_cons, List.filter_filter]
      refine .cons (fun item hitem => ?_) (hothers _ (by simp))
      have hne : item ≠ first := by
        rw [List.mem_eraseDups, List.mem_filter] at hitem
        simpa using (Bool.and_eq_true_iff.mp hitem.2).1
      rw [List.idxOf_cons_self, hbehind item hne]
      exact Nat.succ_pos _

namespace NewEntries

variable {kept add new other : List String}

theorem nodup (h : NewEntries kept add new) : new.Nodup := by
  refine List.Pairwise.imp ?_ h.ordered
  rintro a b hlt rfl
  exact Nat.lt_irrefl _ hlt

theorem unique (h : NewEntries kept add new) (h' : NewEntries kept add other) : new = other := by
  have : Std.Antisymm fun a b => add.idxOf a < add.idxOf b :=
    ⟨fun a b hlt hgt => absurd hgt (Nat.lt_asymm hlt)⟩
  have : Std.Irrefl fun a b => add.idxOf a < add.idxOf b := ⟨fun a => Nat.lt_irrefl _⟩
  refine h.ordered.eq_of_mem_iff h'.ordered fun item => ?_
  rw [h.mem_iff, h'.mem_iff]

end NewEntries

theorem newEntries_eraseDups (kept add : List String) :
    NewEntries kept add (add.filter (· ∉ kept)).eraseDups where
  mem_iff item := by simp
  ordered := pairwise_eraseDups add _

/-! ## Lists -/

section

variable {base add remove : List String} {replace : Bool}

theorem mergeList_eq (base add remove : List String) :
    mergeList base add remove false =
      base.filter (· ∉ remove) ++
        (add.filter (· ∉ base.filter (· ∉ remove))).eraseDups := by
  have hpush : pushNew = fun items item =>
      if [].contains item || items.contains item then items else items ++ [item] := by
    funext items item
    rw [List.contains_nil, Bool.false_or, pushNew]
  have hkept : (base.filter fun item => !remove.contains item) = base.filter (· ∉ remove) := by
    simp
  rw [mergeList, if_neg Bool.false_ne_true, hpush, hkept, Script.foldl_guardedNames]
  simp

theorem mergeList_eq_iff {result : List String} :
    mergeList base add remove false = result ↔
      ∃ new, NewEntries (base.filter (· ∉ remove)) add new ∧
        result = base.filter (· ∉ remove) ++ new := by
  rw [mergeList_eq]
  constructor
  · rintro rfl
    exact ⟨_, newEntries_eraseDups _ add, rfl⟩
  · rintro ⟨new, hnew, rfl⟩
    rw [(newEntries_eraseDups _ add).unique hnew]

theorem mem_mergeList_iff {item : String} :
    item ∈ mergeList base add remove false ↔ item ∈ add ∨ item ∈ base ∧ item ∉ remove := by
  rw [mergeList_eq, List.mem_append, (newEntries_eraseDups _ add).mem_iff, List.mem_filter,
    decide_eq_true_eq]
  tauto

theorem nodup_mergeList (hbase : base.Nodup) (hadd : replace = true → add.Nodup) :
    (mergeList base add remove replace).Nodup := by
  cases replace with
  | true => exact hadd rfl
  | false =>
    have hnew := newEntries_eraseDups (base.filter (· ∉ remove)) add
    rw [mergeList_eq]
    refine List.nodup_append'.mpr ⟨hbase.filter _, hnew.nodup, fun item hkept hitem => ?_⟩
    exact ((hnew.mem_iff item).mp hitem).2 hkept

/-- What a list has taken up it keeps, unless it is removed again. -/
theorem mergeList_mergeList (h : replace = true ∨ add.Disjoint remove) :
    mergeList (mergeList base add remove replace) add remove replace =
      mergeList base add remove replace := by
  cases replace with
  | true => rfl
  | false =>
    have hdisjoint : add.Disjoint remove := h.resolve_left Bool.false_ne_true
    have hkept : (mergeList base add remove false).filter (· ∉ remove) =
        mergeList base add remove false := by
      refine List.filter_eq_self.mpr fun item hitem => decide_eq_true fun hremove => ?_
      obtain hadd | ⟨-, hnot⟩ := mem_mergeList_iff.mp hitem
      · exact hdisjoint hadd hremove
      · exact hnot hremove
    refine mergeList_eq_iff.mpr ⟨[], ⟨fun item => ?_, .nil⟩, ?_⟩
    · rw [hkept, mem_mergeList_iff]
      tauto
    · rw [hkept, List.append_nil]

end

/-! ## Configurations -/

theorem getD_getD {α : Type} (o : Option α) (a : α) : o.getD (o.getD a) = o.getD a := by
  cases o <;> rfl

/-- An overlay merged a second time changes nothing. -/
theorem apply_apply (config : Config) {overlay : Overlay}
    (h : overlay.commands.replace = true ∨
      overlay.commands.implicit.Disjoint overlay.commands.removeImplicit) :
    (config.apply overlay).apply overlay = config.apply overlay := by
  simp only [apply, SettingsOverlay.applyTo, CommandsOverlay.applyTo, OutputOverlay.applyTo,
    getD_getD, mergeList_mergeList h]

theorem nodup_apply {config : Config} (hconfig : config.commands.implicit.Nodup)
    {overlay : Overlay}
    (hoverlay : overlay.commands.replace = true → overlay.commands.implicit.Nodup) :
    (config.apply overlay).commands.implicit.Nodup :=
  nodup_mergeList hconfig hoverlay

theorem nodup_foldl_apply {config : Config} (hconfig : config.commands.implicit.Nodup)
    {overlays : List Overlay}
    (h : ∀ overlay ∈ overlays,
      overlay.commands.replace = true → overlay.commands.implicit.Nodup) :
    (overlays.foldl apply config).commands.implicit.Nodup := by
  induction overlays generalizing config with
  | nil => exact hconfig
  | cons overlay overlays ih =>
    obtain ⟨hfirst, hrest⟩ := List.forall_mem_cons.mp h
    exact ih (nodup_apply hconfig hfirst) hrest

/-- A list without replacement is what it was, less what is removed, and then what is new, each
entry where it is first added; so it holds what is added and what it held, if that is not removed.
On the standard configuration no sequence of overlays leads to duplicates if none replaces the list
by one that has them. An overlay that replaces the list, or does not remove what it adds, can be
merged again without a change. -/
theorem overlays_merge_exactly :
    (∀ base add remove result : List String, mergeList base add remove false = result ↔
      ∃ new, NewEntries (base.filter (· ∉ remove)) add new ∧
        result = base.filter (· ∉ remove) ++ new) ∧
    (∀ (base add remove : List String) (item : String),
      item ∈ mergeList base add remove false ↔ item ∈ add ∨ item ∈ base ∧ item ∉ remove) ∧
    (∀ overlays : List Overlay, (∀ overlay ∈ overlays,
        overlay.commands.replace = true → overlay.commands.implicit.Nodup) →
      ∀ front, front <+: overlays →
        (front.foldl apply standard).commands.implicit.Nodup) ∧
    (∀ (config : Config) (overlay : Overlay), (overlay.commands.replace = true ∨
        overlay.commands.implicit.Disjoint overlay.commands.removeImplicit) →
      (config.apply overlay).apply overlay = config.apply overlay) := by
  refine ⟨fun _ _ _ _ => mergeList_eq_iff, fun _ _ _ _ => mem_mergeList_iff,
    fun overlays h front hfront => ?_, fun config _ => apply_apply config⟩
  exact nodup_foldl_apply (by decide) fun overlay hmem => h overlay (hfront.subset hmem)

/-- An entry that is removed and added, the new ones twice, and then an overlay merged twice. -/
theorem overlays_merge_exactly_moved_entry :
    let moved : Overlay :=
      { commands := { implicit := ["ls", "which", "ls"], removeImplicit := ["which"] } }
    let added : Overlay := { commands := { implicit := ["cp"], removeImplicit := ["echo"] } }
    (standard.apply moved).commands.implicit = ["echo", "ls", "which"] ∧
      (standard.apply moved).commands.implicit.Nodup ∧
      ["cp"].Disjoint ["echo"] ∧
      (standard.apply added).apply added = standard.apply added := by
  intro moved added
  have hdisjoint : ["cp"].Disjoint ["echo"] := by simp
  obtain ⟨-, -, hnodup, hagain⟩ := overlays_merge_exactly
  exact ⟨by decide, hnodup [moved] (by simp [moved]) [moved] (List.prefix_refl _), hdisjoint,
    hagain standard added (.inr hdisjoint)⟩

end CheckedScript.Config
