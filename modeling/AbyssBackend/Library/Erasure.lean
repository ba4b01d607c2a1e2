import AbyssBackend.Library.Markers

/-! Texts with their markers erased in one pass, and what erasing can join into a marker. -/

namespace Markers

variable {α : Type} {m e whole front back text x y z u v first second : List α}

/-- A text with markers filled in, anywhere and any number of times. -/
inductive Filled (m : List α) : List α → List α → Prop
  | nil : Filled m [] []
  | keep (c : α) {z x : List α} (h : Filled m z x) : Filled m (c :: z) (c :: x)
  | fill {z x : List α} (h : Filled m z x) : Filled m z (m ++ x)

/-- A text with markers filled in, one of them strictly inside. -/
def Torn (m z x : List α) : Prop :=
  ∃ u v y y', u ≠ [] ∧ v ≠ [] ∧ z = u ++ v ∧ Filled m u y ∧ Filled m v y' ∧ x = y ++ (m ++ y')

/-- Neither text has the other one in it, and none of the first reaches into the second. -/
structure Foreign (m e : List α) : Prop where
  separate : Separate m e
  outside : ¬ m <:+: e
  inside : ¬ e <:+: m

/-- No end of the marker starts the text. -/
def StartsClear (m text : List α) : Prop := ∀ b, b ≠ [] → b <:+ m → ¬ b <+: text

/-- No start of the marker ends the text. -/
def EndsClear (m text : List α) : Prop := ∀ a, a ≠ [] → a <+: m → ¬ a <:+ text

theorem Filled.refl (m z : List α) : Filled m z z := by
  induction z with
  | nil => exact .nil
  | cons c z ih => exact .keep c ih

theorem Filled.append (h : Filled m z x) {z' x' : List α} (h' : Filled m z' x') : Filled m (z ++ z') (x ++ x') := by
  induction h with
  | nil => exact h'
  | keep c h ih => exact .keep c ih
  | fill h ih =>
    rw [List.append_assoc]
    exact .fill ih

theorem Filled.of_append {z' : List α} (h : Filled m (z ++ z') x) :
    ∃ y y', x = y ++ y' ∧ Filled m z y ∧ Filled m z' y' := by
  generalize hwhole : z ++ z' = whole at h
  induction h generalizing z with
  | nil =>
    obtain ⟨rfl, rfl⟩ := List.append_eq_nil_iff.mp hwhole
    exact ⟨[], [], rfl, .nil, .nil⟩
  | @keep c w x h ih =>
    cases z with
    | nil =>
      cases hwhole
      exact ⟨[], c :: x, rfl, .nil, .keep c h⟩
    | cons d z =>
      rw [List.cons_append, List.cons.injEq] at hwhole
      obtain ⟨rfl, hwhole⟩ := hwhole
      obtain ⟨y, y', rfl, hy, hy'⟩ := ih hwhole
      exact ⟨d :: y, y', rfl, .keep d hy, hy'⟩
  | @fill w x h ih =>
    obtain ⟨y, y', rfl, hy, hy'⟩ := ih hwhole
    exact ⟨m ++ y, y', (List.append_assoc m y y').symm, .fill hy, hy'⟩

theorem Torn.filled (h : Torn m z x) : Filled m z x := by
  obtain ⟨u, v, y, y', -, -, rfl, hy, hy', rfl⟩ := h
  exact hy.append hy'.fill

section Reach

theorem Separate.startsClear (h : Separate m whole) (hnone : ¬ m <:+: u) (hu : u <+: whole) : StartsClear m u := by
  rintro b hb ⟨a, rfl⟩ hpre
  by_cases ha : a = []
  · rw [ha, List.nil_append] at hnone
    exact hnone hpre.isInfix
  · exact h.ends a b rfl ha hb (hpre.trans hu)

theorem Separate.endsClear (h : Separate m whole) (hnone : ¬ m <:+: v) (hv : v <:+ whole) : EndsClear m v := by
  rintro a ha ⟨b, rfl⟩ hsuffix
  by_cases hb : b = []
  · rw [hb, List.append_nil] at hnone
    exact hnone hsuffix.isInfix
  · exact h.starts a b rfl ha hb (hsuffix.trans hv)

theorem StartsClear.mono (h : StartsClear m whole) (hu : u <+: whole) : StartsClear m u :=
  fun b hb hsuffix hpre => h b hb hsuffix (hpre.trans hu)

theorem EndsClear.mono (h : EndsClear m whole) (hv : v <:+ whole) : EndsClear m v :=
  fun a ha hpre hsuffix => h a ha hpre (hsuffix.trans hv)

theorem Foreign.startsClear (h : Foreign m e) : StartsClear m e := h.separate.startsClear h.outside List.prefix_rfl

theorem Foreign.endsClear (h : Foreign m e) : EndsClear m e := h.separate.endsClear h.outside List.suffix_rfl

theorem Filled.not_start (hforeign : Foreign m e) (h : Filled e u x) {b : List α} (hsuffix : b <:+ m)
    (hu : ¬ b <+: u) : ¬ b <+: x := by
  induction h generalizing b with
  | nil => exact hu
  | keep c h ih =>
    cases b with
    | nil => exact absurd List.nil_prefix hu
    | cons d b =>
      rw [List.cons_prefix_cons] at hu ⊢
      rintro ⟨rfl, hpre⟩
      exact ih ((List.suffix_cons d b).trans hsuffix) (fun hrest => hu ⟨rfl, hrest⟩) hpre
  | @fill z x h ih =>
    intro hpre
    have hb : b ≠ [] := fun hempty => hu (hempty ▸ List.nil_prefix)
    obtain hinside | hover := List.prefix_or_prefix_of_prefix hpre (List.prefix_append e x)
    · exact hforeign.startsClear b hb hsuffix hinside
    · exact hforeign.inside (hover.isInfix.trans hsuffix.isInfix)

theorem Filled.startsClear (hforeign : Foreign m e) (h : Filled e u x) (hu : StartsClear m u) : StartsClear m x :=
  fun b hb hsuffix => h.not_start hforeign hsuffix (hu b hb hsuffix)

theorem Filled.eq_of_unfilled (h : Filled e u x) (hnone : ¬ e <:+: x) : u = x := by
  induction h with
  | nil => rfl
  | keep c h ih => rw [ih fun hin => hnone (hin.trans (List.suffix_cons _ _).isInfix)]
  | fill h ih => exact absurd (List.prefix_append _ _).isInfix hnone

theorem Filled.endsClear (hforeign : Foreign m e) (h : Filled e v x) (hv : EndsClear m v) : EndsClear m x := by
  induction h with
  | nil => exact hv
  | @keep c z x h ih =>
    intro a ha hpre hsuffix
    obtain heq | hsuffix := List.suffix_cons_iff.mp hsuffix
    · have hnone : ¬ e <:+: c :: x := fun hin => hforeign.inside (hin.trans (heq ▸ hpre.isInfix))
      rw [← (Filled.keep c h).eq_of_unfilled hnone] at heq
      exact hv a ha hpre (heq ▸ List.suffix_rfl)
    · exact ih (hv.mono (List.suffix_cons c z)) a ha hpre hsuffix
  | @fill z x h ih =>
    rintro a ha hpre ⟨rest, hrest⟩
    obtain ⟨f, he, rfl⟩ | ⟨between, -, rfl⟩ := List.append_eq_append_iff.mp hrest
    · by_cases hf : f = []
      · rw [hf] at ha hpre
        exact ih hv x ha hpre List.suffix_rfl
      · exact hforeign.endsClear f hf ((List.prefix_append f x).trans hpre) ⟨rest, he.symm⟩
    · exact ih hv a ha hpre (List.suffix_append between a)

theorem Filled.not_within (hforeign : Foreign m e) (h : Filled e u x) (hu : ¬ m <:+: u) : ¬ m <:+: x := by
  induction h with
  | nil => exact hu
  | @keep c z x h ih =>
    rw [List.infix_cons_iff, not_or] at hu
    intro hin
    obtain hpre | hin := List.infix_cons_iff.mp hin
    · exact (Filled.keep c h).not_start hforeign List.suffix_rfl hu.1 hpre
    · exact ih hu.2 hin
  | @fill z x h ih =>
    intro hin
    obtain hin | hin | ⟨a, b, ha, -, hm, hsuffix, -⟩ := List.infix_append_iff_ne_nil.mp hin
    · exact hforeign.outside hin
    · exact ih hu hin
    · exact hforeign.endsClear a ha (hm ▸ List.prefix_append a b) hsuffix

end Reach

/-- Two markers that are erased one after the other, neither of which reaches into the other or itself. -/
structure Pair (first second : List α) : Prop where
  first_ne_nil : first ≠ []
  second_ne_nil : second ≠ []
  first_separate : Separate first first
  second_separate : Separate second second
  first_foreign : Foreign first second
  second_foreign : Foreign second first

/-- A text in which erasing leaves a marker: the first one torn by itself, or one of the two torn by the second, with
the first one filled in after that. -/
def Forged (first second text : List α) : Prop :=
  (∃ x, Torn first first x ∧ x <:+: text) ∨
    ∃ m, (m = first ∨ m = second) ∧ ∃ y x, Torn second m y ∧ Filled first y x ∧ x <:+: text

theorem not_infix_piece (h : m = whole ∨ Foreign m whole) (hwhole : whole = u ++ v) (hu : u ≠ []) (hv : v ≠ []) :
    ¬ m <:+: u ∧ ¬ m <:+: v := by
  have hpos := List.length_pos_iff.mpr hu
  have hpos' := List.length_pos_iff.mpr hv
  obtain rfl | hforeign := h
  · have hlength : m.length = u.length + v.length := by rw [hwhole, List.length_append]
    constructor
    all_goals
      intro hin
      have hle := hin.length_le
      omega
  · rw [hwhole] at hforeign
    exact ⟨fun hin => hforeign.outside (hin.trans (List.prefix_append u v).isInfix),
      fun hin => hforeign.outside (hin.trans (List.suffix_append u v).isInfix)⟩

theorem Pair.first_cases (h : Pair first second) {m : List α} (hm : m = first ∨ m = second) :
    Separate first m ∧ (first = m ∨ Foreign first m) := by
  obtain rfl | rfl := hm
  · exact ⟨h.first_separate, .inl rfl⟩
  · exact ⟨h.first_foreign.separate, .inr h.first_foreign⟩

theorem Pair.second_cases (h : Pair first second) {m : List α} (hm : m = first ∨ m = second) :
    Separate second m ∧ (second = m ∨ Foreign second m) := by
  obtain rfl | rfl := hm
  · exact ⟨h.second_foreign.separate, .inr h.second_foreign⟩
  · exact ⟨h.second_separate, .inl rfl⟩

section Erase

variable [DecidableEq α]

/-- The text after so many elements, without its markers. -/
def eraseFrom (m : List α) : ℕ → List α → List α
  | _, [] => []
  | skipped + 1, _ :: text => eraseFrom m skipped text
  | 0, c :: text => if m <+: c :: text then eraseFrom m (m.length - 1) text else c :: eraseFrom m 0 text

/-- The text without its markers, found from left to right. -/
def erase (m text : List α) : List α := eraseFrom m 0 text

theorem eraseFrom_eq (m : List α) (skipped : ℕ) (text : List α) :
    eraseFrom m skipped text = erase m (text.drop skipped) := by
  induction skipped generalizing text with
  | zero => rfl
  | succ skipped ih =>
    cases text with
    | nil => rfl
    | cons c text => exact ih text

theorem erase_block (m rest : List α) : erase m (m ++ rest) = erase m rest := by
  cases m with
  | nil => rfl
  | cons c m =>
    have hpre : c :: m <+: c :: (m ++ rest) := List.prefix_append (c :: m) rest
    rw [List.cons_append, erase, eraseFrom, if_pos hpre, eraseFrom_eq, List.length_cons, Nat.add_sub_cancel,
      List.drop_left]

theorem erase_keep {c : α} (h : ¬ m <+: c :: text) : erase m (c :: text) = c :: erase m text := by
  rw [erase, eraseFrom, if_neg h]
  rfl

/-- A text is read block by block, or element by element where no marker is. -/
theorem block_induction (hm : m ≠ []) {motive : List α → Prop} (nil : motive [])
    (block : ∀ rest, motive rest → motive (m ++ rest))
    (keep : ∀ c text, ¬ m <+: c :: text → motive text → motive (c :: text)) (text : List α) : motive text := by
  induction hlength : text.length using Nat.strong_induction_on generalizing text with
  | h length ih =>
    cases text with
    | nil => exact nil
    | cons c text =>
      by_cases hpre : m <+: c :: text
      · obtain ⟨rest, hrest⟩ := hpre
        have hshorter : rest.length < length := by
          have hpos := List.length_pos_iff.mpr hm
          rw [← hlength, ← hrest, List.length_append]
          omega
        rw [← hrest]
        exact block rest (ih rest.length hshorter rest rfl)
      · have hshorter : text.length < length := by
          rw [← hlength, List.length_cons]
          exact Nat.lt_succ_self _
        exact keep c text hpre (ih text.length hshorter text rfl)

theorem erase_of_clear (h : ¬ m <:+: text) : erase m text = text := by
  induction text with
  | nil => rfl
  | cons c text ih =>
    rw [List.infix_cons_iff, not_or] at h
    rw [erase_keep h.1, ih h.2]

theorem erase_length (m text : List α) : (erase m text).length ≤ text.length := by
  have hfrom : ∀ skipped, (eraseFrom m skipped text).length ≤ text.length := by
    induction text with
    | nil =>
      intro skipped
      cases skipped
      all_goals exact Nat.le_refl _
    | cons c text ih =>
      intro skipped
      cases skipped with
      | zero =>
        rw [eraseFrom]
        split
        · exact (ih _).trans (Nat.le_succ _)
        · exact Nat.succ_le_succ (ih 0)
      | succ skipped => exact (ih skipped).trans (Nat.le_succ _)
  exact hfrom 0

theorem erase_append (hm : m ≠ [])
    (h : ∀ a b, m = a ++ b → a ≠ [] → b ≠ [] → a <:+ front → ¬ b <+: back) :
    erase m (front ++ back) = erase m front ++ erase m back := by
  induction front using block_induction hm with
  | nil => rfl
  | block rest ih =>
    rw [List.append_assoc, erase_block, erase_block]
    exact ih fun a b hsplit ha hb hsuffix => h a b hsplit ha hb (List.suffix_append_of_suffix hsuffix)
  | keep c text hpre ih =>
    have hover : ¬ m <+: c :: (text ++ back) := by
      rintro ⟨rest, hrest⟩
      obtain ⟨beyond, hover, -⟩ | ⟨beyond, hsplit, hback⟩ := List.append_eq_append_iff.mp (hrest.trans
        (@List.cons_append _ c text back).symm)
      · exact hpre ⟨beyond, hover.symm⟩
      · by_cases hempty : beyond = []
        · rw [hempty, List.append_nil] at hsplit
          exact hpre (hsplit ▸ List.prefix_rfl)
        · exact h (c :: text) beyond hsplit (List.cons_ne_nil c text) hempty List.suffix_rfl ⟨rest, hback.symm⟩
    rw [List.cons_append, erase_keep hover, erase_keep hpre, List.cons_append, ih]
    exact fun a b hsplit ha hb hsuffix => h a b hsplit ha hb (hsuffix.trans (List.suffix_cons c text))

theorem erase_cut (hm : m ≠ []) {kept rest : List α} (hrest : rest ≠ []) (h : erase m text = kept ++ rest) :
    ∃ front back, text = front ++ back ∧ erase m back = rest ∧ ¬ m <+: back := by
  induction text using block_induction hm generalizing kept with
  | nil => exact absurd (List.append_eq_nil_iff.mp h.symm).2 hrest
  | block tail ih =>
    -- the marker goes to the front, even when nothing was kept before it
    rw [erase_block] at h
    obtain ⟨front, back, rfl, hback, hnone⟩ := ih h
    exact ⟨m ++ front, back, (List.append_assoc m front back).symm, hback, hnone⟩
  | keep c text hpre ih =>
    rw [erase_keep hpre] at h
    cases kept with
    | nil => exact ⟨[], c :: text, rfl, by rw [erase_keep hpre, h]; rfl, hpre⟩
    | cons d kept =>
      rw [List.cons_append, List.cons.injEq] at h
      obtain ⟨front, back, rfl, hback, hnone⟩ := ih h.2
      exact ⟨c :: front, back, rfl, hback, hnone⟩

/-- What is left was there, or a marker before some of it has been erased. -/
theorem erase_start (hm : m ≠ []) {rest : List α} (h : erase m text = z ++ rest) :
    ∃ x back, text = x ++ back ∧ (x = z ∨ ∃ u v y y', v ≠ [] ∧ z = u ++ v ∧ Filled m u y ∧ Filled m v y' ∧
      x = y ++ (m ++ y')) := by
  induction text using block_induction hm generalizing z with
  | nil => exact ⟨[], [], rfl, .inl (List.append_eq_nil_iff.mp h.symm).1.symm⟩
  | block tail ih =>
    cases z with
    | nil => exact ⟨[], m ++ tail, rfl, .inl rfl⟩
    | cons c z =>
      rw [erase_block] at h
      obtain ⟨x, back, rfl, hx⟩ := ih h
      have hfilled : Filled m (c :: z) x := by
        obtain rfl | ⟨u, v, y, y', -, hsplit, hy, hy', rfl⟩ := hx
        · exact Filled.refl m (c :: z)
        · rw [hsplit]
          exact hy.append hy'.fill
      exact ⟨m ++ x, back, (List.append_assoc m x back).symm,
        .inr ⟨[], c :: z, [], x, List.cons_ne_nil c z, rfl, .nil, hfilled, rfl⟩⟩
  | keep c text hpre ih =>
    cases z with
    | nil => exact ⟨[], c :: text, rfl, .inl rfl⟩
    | cons d z =>
      rw [erase_keep hpre, List.cons_append, List.cons.injEq] at h
      obtain ⟨rfl, h⟩ := h
      obtain ⟨x, back, rfl, hx⟩ := ih h
      refine ⟨c :: x, back, rfl, ?_⟩
      obtain rfl | ⟨u, v, y, y', hv, rfl, hy, hy', rfl⟩ := hx
      · exact .inl rfl
      · exact .inr ⟨c :: u, v, c :: y, y', hv, rfl, .keep c hy, hy', rfl⟩

/-- What is found after erasing was there, and is no marker, or was torn by one. -/
theorem infix_of_erase (hm : m ≠ []) (hz : z ≠ []) (h : z <:+: erase m text) :
    (z ≠ m ∧ z <:+: text) ∨ ∃ x, Torn m z x ∧ x <:+: text := by
  obtain ⟨kept, rest, h⟩ := h
  obtain ⟨c, z, rfl⟩ := List.exists_cons_of_ne_nil hz
  rw [List.append_assoc] at h
  obtain ⟨front, back, rfl, hback, hnone⟩ := erase_cut hm (List.cons_ne_nil c (z ++ rest)) h.symm
  cases back with
  | nil => cases hback
  | cons d back =>
    rw [erase_keep hnone, List.cons.injEq] at hback
    obtain ⟨rfl, hback⟩ := hback
    obtain ⟨x, after, rfl, hx⟩ := erase_start hm hback
    have hin : d :: x <:+: front ++ d :: (x ++ after) := ⟨front, after, by simp⟩
    obtain rfl | ⟨u, v, y, y', hv, rfl, hy, hy', rfl⟩ := hx
    · refine .inl ⟨?_, hin⟩
      rintro rfl
      exact hnone (List.prefix_append (d :: x) after)
    · exact .inr ⟨d :: (y ++ (m ++ y')), ⟨d :: u, v, d :: y, y', List.cons_ne_nil d u, hv, rfl, .keep d hy, hy', rfl⟩,
        hin⟩

theorem filled_of_erase (hm : m ≠ []) (hz : z ≠ []) (h : z <:+: erase m text) : ∃ x, Filled m z x ∧ x <:+: text := by
  obtain ⟨-, hin⟩ | ⟨x, hx, hin⟩ := infix_of_erase hm hz h
  · exact ⟨z, Filled.refl m z, hin⟩
  · exact ⟨x, hx.filled, hin⟩

theorem erase_around (hm : m ≠ []) (h : Separate m m) (front back : List α) :
    erase m (front ++ (m ++ back)) = erase m front ++ erase m back := by
  rw [erase_append hm, erase_block]
  intro a b hsplit ha hb _ hpre
  have hlength : b.length ≤ m.length := by
    rw [hsplit, List.length_append]
    exact Nat.le_add_left _ _
  exact h.ends a b hsplit ha hb (List.prefix_of_prefix_length_le hpre (List.prefix_append m back) hlength)

theorem erase_before (hm : m ≠ []) (h : StartsClear m u) (hnone : ¬ m <:+: u) (front : List α) :
    erase m (front ++ u) = erase m front ++ u := by
  rw [erase_append hm, erase_of_clear hnone]
  exact fun a b hsplit _ hb _ => h b hb (hsplit ▸ List.suffix_append a b)

theorem erase_after (hm : m ≠ []) (h : EndsClear m v) (hnone : ¬ m <:+: v) (back : List α) :
    erase m (v ++ back) = v ++ erase m back := by
  rw [erase_append hm, erase_of_clear hnone]
  exact fun a b hsplit ha _ hsuffix => absurd hsuffix (h a ha (hsplit ▸ List.prefix_append a b))

theorem Filled.erase_read (hm : m ≠ []) (hself : Separate m m) (h : Filled m z x) (read : List α)
    (hnone : ¬ m <:+: read ++ z) : erase m (read ++ x) = read ++ z := by
  -- `read` is what has been kept, into which a marker that is filled in next might reach
  induction h generalizing read with
  | nil => exact erase_of_clear hnone
  | @keep c z x h ih =>
    rw [List.append_cons read c z] at hnone ⊢
    rw [List.append_cons read c x]
    exact ih (read ++ [c]) hnone
  | @fill z x h ih =>
    have hrest : erase m x = z := ih [] fun hin => hnone (hin.trans (List.suffix_append read z).isInfix)
    have hread : ¬ m <:+: read := fun hin => hnone (hin.trans (List.prefix_append read z).isInfix)
    rw [erase_around hm hself, erase_of_clear hread, hrest]

theorem Filled.erase_eq (hm : m ≠ []) (hself : Separate m m) (h : Filled m z x) (hnone : ¬ m <:+: z) :
    erase m x = z := h.erase_read hm hself [] hnone

theorem Filled.erase_after (hm : m ≠ []) (hself : Separate m m) (h : Filled m z x) (read : List α)
    (hends : EndsClear m (read ++ z)) (hnone : ¬ m <:+: read ++ z) (back : List α) :
    erase m (read ++ (x ++ back)) = read ++ (z ++ erase m back) := by
  induction h generalizing read with
  | nil =>
    rw [List.append_nil] at hends hnone
    exact Markers.erase_after hm hends hnone back
  | @keep c z x h ih =>
    rw [List.append_cons read c z] at hends hnone
    rw [List.cons_append, List.cons_append, List.append_cons read c (x ++ back),
      List.append_cons read c (z ++ erase m back)]
    exact ih (read ++ [c]) hends hnone
  | @fill z x h ih =>
    have hrest : erase m (x ++ back) = z ++ erase m back := ih [] (hends.mono (List.suffix_append read z))
      fun hin => hnone (hin.trans (List.suffix_append read z).isInfix)
    have hread : ¬ m <:+: read := fun hin => hnone (hin.trans (List.prefix_append read z).isInfix)
    rw [List.append_assoc, erase_around hm hself, erase_of_clear hread, hrest]

theorem Filled.erase_before (hm : m ≠ []) (hself : Separate m m) (h : Filled m z x) (read : List α)
    (hstarts : StartsClear m (read ++ z)) (hnone : ¬ m <:+: read ++ z) (front : List α) :
    erase m (front ++ (read ++ x)) = erase m front ++ (read ++ z) := by
  induction h generalizing read with
  | nil =>
    rw [List.append_nil] at hstarts hnone ⊢
    exact Markers.erase_before hm hstarts hnone front
  | @keep c z x h ih =>
    rw [List.append_cons read c z] at hstarts hnone
    rw [List.append_cons read c x, List.append_cons read c z]
    exact ih (read ++ [c]) hstarts hnone
  | @fill z x h ih =>
    have hread : ¬ m <:+: read := fun hin => hnone (hin.trans (List.prefix_append read z).isInfix)
    have hz : ¬ m <:+: z := fun hin => hnone (hin.trans (List.suffix_append read z).isInfix)
    rw [← List.append_assoc, erase_around hm hself,
      Markers.erase_before hm (hstarts.mono (List.prefix_append read z)) hread, h.erase_eq hm hself hz,
      List.append_assoc]

theorem Filled.erase_between (hm : m ≠ []) (hself : Separate m m) (h : Filled m z x) (read : List α)
    (hforeign : Foreign m (read ++ z)) (front back : List α) :
    erase m (front ++ (read ++ (x ++ back))) = erase m front ++ (read ++ (z ++ erase m back)) := by
  induction h generalizing read with
  | nil =>
    rw [List.append_nil] at hforeign
    rw [List.nil_append, List.nil_append, erase_append hm, Markers.erase_after hm hforeign.endsClear hforeign.outside]
    intro a b hsplit ha hb _ hpre
    have hsuffix : b <:+ m := hsplit ▸ List.suffix_append a b
    obtain hinside | hover := List.prefix_or_prefix_of_prefix hpre (List.prefix_append read back)
    · exact hforeign.startsClear b hb hsuffix hinside
    · exact hforeign.inside (hover.isInfix.trans hsuffix.isInfix)
  | @keep c z x h ih =>
    rw [List.append_cons read c z] at hforeign
    rw [List.cons_append, List.cons_append, List.append_cons read c (x ++ back),
      List.append_cons read c (z ++ erase m back)]
    exact ih (read ++ [c]) hforeign
  | @fill z x h ih =>
    have hread : ¬ m <:+: read := fun hin => hforeign.outside (hin.trans (List.prefix_append read z).isInfix)
    have hz : ¬ m <:+: z := fun hin => hforeign.outside (hin.trans (List.suffix_append read z).isInfix)
    have hrest : erase m (x ++ back) = z ++ erase m back :=
      h.erase_after hm hself [] (hforeign.endsClear.mono (List.suffix_append read z)) hz back
    rw [← List.append_assoc, List.append_assoc m, erase_around hm hself,
      Markers.erase_before hm (hforeign.startsClear.mono (List.prefix_append read z)) hread, hrest,
      List.append_assoc]

/-- A marker's text that is torn by markers is whole after erasing. -/
theorem Torn.infix_erase (hm : m ≠ []) (hself : Separate m m) (h : Torn m z x) (hseparate : Separate m z)
    (hnone : ∀ u v, z = u ++ v → u ≠ [] → v ≠ [] → ¬ m <:+: u ∧ ¬ m <:+: v) (front back : List α) :
    z <:+: erase m (front ++ (x ++ back)) := by
  obtain ⟨u, v, y, y', hu, hv, rfl, hy, hy', rfl⟩ := h
  obtain ⟨hnoneU, hnoneV⟩ := hnone u v rfl hu hv
  have hbefore : erase m (front ++ y) = erase m front ++ u :=
    hy.erase_before hm hself [] (hseparate.startsClear hnoneU (List.prefix_append u v)) hnoneU front
  have hafter : erase m (y' ++ back) = v ++ erase m back :=
    hy'.erase_after hm hself [] (hseparate.endsClear hnoneV (List.suffix_append u v)) hnoneV back
  have hsplit : front ++ ((y ++ (m ++ y')) ++ back) = (front ++ y) ++ (m ++ (y' ++ back)) := by
    simp only [List.append_assoc]
  refine ⟨erase m front, erase m back, ?_⟩
  rw [hsplit, erase_around hm hself, hbefore, hafter]
  simp only [List.append_assoc]

theorem Pair.forged_of_found (h : Pair first second) {m : List α} (hm : m = first ∨ m = second)
    (hin : m <:+: erase second (erase first text)) : Forged first second text := by
  have hne : m ≠ [] := by
    obtain rfl | rfl := hm
    · exact h.first_ne_nil
    · exact h.second_ne_nil
  obtain ⟨hother, hin⟩ | ⟨y, hy, hin⟩ := infix_of_erase h.second_ne_nil hne hin
  · obtain rfl | rfl := hm
    · obtain ⟨hself, -⟩ | hx := infix_of_erase h.first_ne_nil hne hin
      · exact absurd rfl hself
      · exact .inl hx
    · exact absurd rfl hother
  · have hy' : y ≠ [] := by
      obtain ⟨u, v, z, z', -, -, -, -, -, rfl⟩ := hy
      simp [h.second_ne_nil]
    obtain ⟨x, hx, hin⟩ := filled_of_erase h.first_ne_nil hy' hin
    exact .inr ⟨m, hm, y, x, hy, hx, hin⟩

theorem Pair.erase_filled (h : Pair first second) {m : List α} (hm : m = first ∨ m = second) (hy : Torn second m y)
    (hx : Filled first y x) (front back : List α) :
    erase first (front ++ (x ++ back)) = erase first front ++ (y ++ erase first back) := by
  obtain ⟨u, v, y, y', hu, hv, rfl, hy, hy', rfl⟩ := hy
  obtain ⟨hseparate, hpieces⟩ := h.first_cases hm
  obtain ⟨hnoneU, hnoneV⟩ := not_infix_piece hpieces rfl hu hv
  obtain ⟨x, rest, rfl, hfilled, hrest⟩ := hx.of_append
  obtain ⟨e, x', rfl, he, hfilled'⟩ := hrest.of_append
  have hstarts := hy.startsClear h.first_foreign (hseparate.startsClear hnoneU (List.prefix_append u v))
  have hends := hy'.endsClear h.first_foreign (hseparate.endsClear hnoneV (List.suffix_append u v))
  have hbefore : erase first (front ++ x) = erase first front ++ y :=
    hfilled.erase_before h.first_ne_nil h.first_separate [] hstarts (hy.not_within h.first_foreign hnoneU) front
  have hafter : erase first (x' ++ back) = y' ++ erase first back :=
    hfilled'.erase_after h.first_ne_nil h.first_separate [] hends (hy'.not_within h.first_foreign hnoneV) back
  have hbetween : erase first ((front ++ x) ++ (e ++ (x' ++ back))) =
      erase first (front ++ x) ++ (second ++ erase first (x' ++ back)) :=
    he.erase_between h.first_ne_nil h.first_separate [] h.first_foreign (front ++ x) (x' ++ back)
  have hsplit : front ++ ((x ++ (e ++ x')) ++ back) = (front ++ x) ++ (e ++ (x' ++ back)) := by
    simp only [List.append_assoc]
  rw [hsplit, hbetween, hbefore, hafter]
  simp only [List.append_assoc]

theorem Pair.infix_of_forged (h : Pair first second) (hforged : Forged first second text) :
    ∃ m, (m = first ∨ m = second) ∧ m <:+: erase second (erase first text) := by
  obtain ⟨x, hx, front, back, rfl⟩ | ⟨m, hm, y, x, hy, hx, front, back, rfl⟩ := hforged
  · rw [List.append_assoc]
    obtain ⟨kept, rest, hin⟩ := hx.infix_erase h.first_ne_nil h.first_separate h.first_separate
      (fun u v => not_infix_piece (.inl rfl)) front back
    refine ⟨first, .inl rfl, erase second kept, erase second rest, ?_⟩
    have hkept : erase second (kept ++ (first ++ rest)) = erase second kept ++ (first ++ erase second rest) :=
      (Filled.refl second first).erase_between h.second_ne_nil h.second_separate [] h.second_foreign kept rest
    rw [← hin, List.append_assoc, List.append_assoc, hkept]
  · refine ⟨m, hm, ?_⟩
    obtain ⟨hseparate, hpieces⟩ := h.second_cases hm
    rw [List.append_assoc, h.erase_filled hm hy hx]
    exact hy.infix_erase h.second_ne_nil h.second_separate hseparate (fun u v => not_infix_piece hpieces) _ _

/-- Erasing both markers leaves one exactly in the texts that are forged for it. -/
theorem Pair.clear_iff (h : Pair first second) :
    (¬ first <:+: erase second (erase first text) ∧ ¬ second <:+: erase second (erase first text)) ↔
      ¬ Forged first second text := by
  constructor
  · rintro ⟨hfirst, hsecond⟩ hforged
    obtain ⟨m, rfl | rfl, hin⟩ := h.infix_of_forged hforged
    · exact hfirst hin
    · exact hsecond hin
  · intro hforged
    exact ⟨fun hin => hforged (h.forged_of_found (.inl rfl) hin),
      fun hin => hforged (h.forged_of_found (.inr rfl) hin)⟩

end Erase

end Markers
