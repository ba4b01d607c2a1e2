import Mathlib.Data.List.Forall2
import Mathlib.Data.List.Induction
import Mathlib.Data.List.Perm.Basic

namespace Attempts

variable {ε α β : Type}

theorem bind_eq_ok {x : Except ε α} {f : α → Except ε β} {b : β} :
    x >>= f = .ok b ↔ ∃ a, x = .ok a ∧ f a = .ok b := by
  cases x with
  | error e =>
    constructor
    · intro h
      cases h
    · rintro ⟨a, h, -⟩
      cases h
  | ok a =>
    constructor
    · intro h
      exact ⟨a, rfl, h⟩
    · rintro ⟨a, h, hf⟩
      cases h
      exact hf

theorem bind_eq_error {x : Except ε α} {f : α → Except ε β} {e : ε} :
    x >>= f = .error e ↔ x = .error e ∨ ∃ a, x = .ok a ∧ f a = .error e := by
  cases x with
  | error e' =>
    constructor
    · intro h
      cases h
      exact Or.inl rfl
    · rintro (h | ⟨a, h, -⟩) <;> cases h
      rfl
  | ok a =>
    constructor
    · intro h
      exact Or.inr ⟨a, rfl, h⟩
    · rintro (h | ⟨a, h, hf⟩) <;> cases h
      exact hf

/-- What holds at the start and is kept by every step that succeeds holds after a run that succeeds. -/
theorem foldlM_ok {step : β → α → Except ε β} {xs : List α} {start stop : β} {P : List α → β → Prop}
    (h : xs.foldlM step start = .ok stop) (hstart : P [] start)
    (hstep : ∀ done x before after, P done before → step before x = .ok after → P (done ++ [x]) after) :
    P xs stop := by
  induction xs using List.reverseRecOn generalizing stop with
  | nil =>
    cases h
    exact hstart
  | append_singleton xs x ih =>
    rw [List.foldlM_append] at h
    obtain ⟨before, hbefore, hlast⟩ := bind_eq_ok.mp h
    rw [List.foldlM_cons] at hlast
    obtain ⟨after, hafter, hdone⟩ := bind_eq_ok.mp hlast
    cases hdone
    exact hstep xs x before _ (ih hbefore) hafter

/-- Where every step succeeds and keeps what held before it, the run succeeds. -/
theorem foldlM_total {step : β → α → Except ε β} {xs : List α} {start : β} {P : List α → β → Prop} (hstart : P [] start)
    (hstep : ∀ done x rest before, done ++ x :: rest = xs → P done before →
      ∃ after, step before x = .ok after ∧ P (done ++ [x]) after) :
    ∃ stop, xs.foldlM step start = .ok stop ∧ P xs stop := by
  have hfrom : ∀ rest done before, done ++ rest = xs → P done before →
      ∃ stop, rest.foldlM step before = .ok stop ∧ P xs stop := by
    intro rest
    induction rest with
    | nil =>
      intro done before hsplit hbefore
      rw [List.append_nil] at hsplit
      exact ⟨before, rfl, hsplit ▸ hbefore⟩
    | cons x rest ih =>
      intro done before hsplit hbefore
      obtain ⟨after, hafter, hkept⟩ := hstep done x rest before hsplit hbefore
      obtain ⟨stop, hstop, hall⟩ := ih (done ++ [x]) after (by rw [List.append_assoc]; exact hsplit) hkept
      rw [List.foldlM_cons]
      exact ⟨stop, bind_eq_ok.mpr ⟨after, hafter, hstop⟩, hall⟩
  exact hfrom xs [] start rfl hstart

theorem mapM_ok {f : α → Except ε β} {xs : List α} {ys : List β} (h : xs.mapM f = .ok ys) :
    List.Forall₂ (fun x y => f x = .ok y) xs ys := by
  induction xs generalizing ys with
  | nil =>
    cases h
    exact .nil
  | cons x xs ih =>
    rw [List.mapM_cons] at h
    obtain ⟨y, hy, h⟩ := bind_eq_ok.mp h
    obtain ⟨rest, hrest, h⟩ := bind_eq_ok.mp h
    cases h
    exact .cons hy (ih hrest)

theorem mapM_eq_ok {f : α → Except ε β} {xs : List α} {ys : List β} :
    xs.mapM f = .ok ys ↔ List.Forall₂ (fun x y => f x = .ok y) xs ys := by
  refine ⟨mapM_ok, fun h => ?_⟩
  induction h with
  | nil => rfl
  | cons hfirst _ ih => rw [List.mapM_cons, hfirst, ih]; rfl

theorem option_mapM_eq_ok {f : α → Except ε β} {x : Option α} {y : Option β} :
    x.mapM f = .ok y ↔ Option.Rel (fun a b => f a = .ok b) x y := by
  cases x with
  | none =>
    constructor
    · intro h
      cases h
      exact .none
    · rintro ⟨⟩
      rfl
  | some a =>
    rw [Option.mapM_some]
    cases hf : f a with
    | error e =>
      constructor
      · intro h
        cases h
      · intro h
        cases h with
        | some h =>
          rw [hf] at h
          cases h
    | ok b =>
      constructor
      · intro h
        cases h
        exact .some hf
      · intro h
        cases h with
        | some h =>
          rw [hf] at h
          cases h
          rfl

/-- Steps that are run first and then paired with what they are of. -/
theorem mapM_zip {γ : Type} (f : α → Except ε β) (g : α × β → γ) (xs : List α) :
    (xs.mapM fun x => f x >>= fun y => .ok (g (x, y))) = xs.mapM f >>= fun ys => .ok ((xs.zip ys).map g) := by
  induction xs with
  | nil => rfl
  | cons x xs ih =>
    rw [List.mapM_cons, List.mapM_cons, ih]
    cases f x with
    | error e => rfl
    | ok y => cases xs.mapM f <;> rfl

theorem mapM_error {f : α → Except ε β} {xs : List α} {e : ε} (h : xs.mapM f = .error e) :
    ∃ x ∈ xs, f x = .error e := by
  induction xs with
  | nil => cases h
  | cons x xs ih =>
    rw [List.mapM_cons] at h
    obtain hfirst | ⟨y, -, h⟩ := bind_eq_error.mp h
    · exact ⟨x, List.mem_cons_self, hfirst⟩
    · obtain hrest | ⟨ys, -, h⟩ := bind_eq_error.mp h
      · obtain ⟨x', hx', hf⟩ := ih hrest
        exact ⟨x', List.mem_cons_of_mem _ hx', hf⟩
      · cases h

theorem mapM_related {γ : Type} {f : α → Except ε β} {R : γ → α → Prop} {Q : γ → β → Prop} {cs : List γ} {xs : List α}
    (h : List.Forall₂ R cs xs) (hone : ∀ c x, R c x → ∃ y, f x = .ok y ∧ Q c y) :
    ∃ ys, xs.mapM f = .ok ys ∧ List.Forall₂ Q cs ys := by
  induction h with
  | nil => exact ⟨[], rfl, .nil⟩
  | @cons c x cs xs hfirst _ ih =>
    obtain ⟨y, hy, hQ⟩ := hone c x hfirst
    obtain ⟨ys, hys, hrest⟩ := ih
    exact ⟨y :: ys, by rw [List.mapM_cons, hy, hys]; rfl, .cons hQ hrest⟩

theorem mapM_all {f : α → Except ε β} {Q : α → β → Prop} {xs : List α}
    (h : ∀ x ∈ xs, ∃ y, f x = .ok y ∧ Q x y) : ∃ ys, xs.mapM f = .ok ys ∧ List.Forall₂ Q xs ys := by
  refine mapM_related (R := fun c x => c = x ∧ x ∈ xs) (List.forall₂_same.mpr fun x hx => ⟨rfl, hx⟩) ?_
  rintro x _ ⟨rfl, hx⟩
  exact h x hx

section Alike

variable {γ δ : Type} {S : α → β → Prop} {T : γ → δ → Prop}

/-- Two attempts that end alike: with related results, or with the same error. -/
inductive Alike (S : α → β → Prop) : Except ε α → Except ε β → Prop
  | ok {x : α} {y : β} (h : S x y) : Alike S (.ok x) (.ok y)
  | error (e : ε) : Alike S (.error e) (.error e)

theorem alike_eq {x y : Except ε α} : Alike Eq x y ↔ x = y := by
  constructor
  · rintro (⟨⟨⟩⟩ | _) <;> rfl
  · rintro rfl
    cases x with
    | ok x => exact .ok rfl
    | error e => exact .error e

theorem Alike.bind {x : Except ε α} {y : Except ε β} {f : α → Except ε γ} {g : β → Except ε δ} (h : Alike S x y)
    (hnext : ∀ a b, S a b → Alike T (f a) (g b)) : Alike T (x >>= f) (y >>= g) := by
  cases h with
  | ok h => exact hnext _ _ h
  | error e => exact .error e

theorem Alike.bind_eq {x : Except ε α} {y : Except ε β} {f : α → Except ε γ} {g : β → Except ε γ} (h : Alike S x y)
    (hnext : ∀ a b, S a b → f a = g b) : x >>= f = y >>= g :=
  alike_eq.mp (h.bind fun a b hab => alike_eq.mpr (hnext a b hab))

theorem Alike.mono_ok {S' : α → β → Prop} {x : Except ε α} {y : Except ε β} (h : Alike S x y)
    (hmono : ∀ a b, x = .ok a → y = .ok b → S a b → S' a b) : Alike S' x y := by
  cases h with
  | ok h => exact .ok (hmono _ _ rfl rfl h)
  | error e => exact .error e

theorem Alike.trans {U : α → γ → Prop} {S' : β → γ → Prop} {x : Except ε α} {y : Except ε β} {z : Except ε γ}
    (h : Alike S x y) (h' : Alike S' y z) (htrans : ∀ a b c, S a b → S' b c → U a c) : Alike U x z := by
  cases h with
  | ok h =>
    cases h' with
    | ok h' => exact .ok (htrans _ _ _ h h')
  | error e =>
    cases h' with
    | error => exact .error e

theorem mapM_alike {R : α → β → Prop} {f : α → Except ε γ} {g : β → Except ε δ} {xs : List α} {ys : List β}
    (h : List.Forall₂ R xs ys) (hone : ∀ x ∈ xs, ∀ y ∈ ys, R x y → Alike T (f x) (g y)) :
    Alike (List.Forall₂ T) (xs.mapM f) (ys.mapM g) := by
  induction h with
  | nil => exact .ok .nil
  | @cons x y xs ys hfirst _ ih =>
    rw [List.mapM_cons, List.mapM_cons]
    have hrest := ih fun x hx y hy => hone x (List.mem_cons_of_mem _ hx) y (List.mem_cons_of_mem _ hy)
    apply (hone x List.mem_cons_self y List.mem_cons_self hfirst).bind
    intro a b hab
    apply hrest.bind
    intro as bs habs
    exact .ok (.cons hab habs)

theorem mapM_congr {R : α → β → Prop} {f : α → Except ε γ} {g : β → Except ε γ} {xs : List α} {ys : List β}
    (h : List.Forall₂ R xs ys) (hone : ∀ x ∈ xs, ∀ y ∈ ys, R x y → f x = g y) : xs.mapM f = ys.mapM g := by
  have halike : Alike (List.Forall₂ Eq) (xs.mapM f) (ys.mapM g) :=
    mapM_alike h fun x hx y hy hxy => alike_eq.mpr (hone x hx y hy hxy)
  rw [List.forall₂_eq_eq_eq] at halike
  exact alike_eq.mp halike

/-- Where all that fails fails alike, the order of the items only orders the results. -/
theorem mapM_perm {f : α → Except ε β} {xs ys : List α} {e : ε} (h : xs.Perm ys)
    (herror : ∀ x ∈ xs, ∀ e', f x = .error e' → e' = e) : Alike List.Perm (xs.mapM f) (ys.mapM f) := by
  induction h with
  | nil => exact .ok .nil
  | @cons x xs ys _ ih =>
    have hrest := ih fun x hx => herror x (List.mem_cons_of_mem _ hx)
    rw [List.mapM_cons, List.mapM_cons]
    apply (alike_eq.mpr rfl).bind
    rintro a _ rfl
    exact hrest.bind fun as bs habs => .ok (habs.cons a)
  | swap x y xs =>
    simp only [List.mapM_cons, bind_assoc]
    have hx := herror x (List.mem_cons_of_mem _ List.mem_cons_self)
    have hy := herror y List.mem_cons_self
    cases hfx : f x with
    | error ex =>
      obtain rfl := hx ex hfx
      cases hfy : f y with
      | error ey =>
        obtain rfl := hy ey hfy
        exact .error _
      | ok b => exact .error _
    | ok a =>
      cases hfy : f y with
      | error ey => exact .error _
      | ok b =>
        cases hrest : xs.mapM f with
        | error er => exact .error er
        | ok rest => exact .ok (.swap a b rest)
  | @trans xs ys zs hxy _ ihxy ihyz =>
    have hsecond := ihyz fun y hy => herror y (hxy.mem_iff.mpr hy)
    exact (ihxy herror).trans hsecond fun _ _ _ => List.Perm.trans

end Alike

section Related

variable {γ δ : Type} {g : α → γ}

theorem throw_then {error : ε} {f : α → Except ε β} : (throw error : Except ε α) >>= f = .error error := rfl

theorem bind_related {x : Except ε α} {x' : Except ε γ} {f : α → Except ε β} {f' : γ → Except ε δ} {k : β → δ}
    (h : x' = x.map g) (hf : ∀ a, x = .ok a → f' (g a) = (f a).map k) : x' >>= f' = (x >>= f).map k := by
  subst h
  cases x with
  | error error => rfl
  | ok a => exact hf a rfl

theorem map_eq_ok {x : Except ε α} {f : α → β} {b : β} : x.map f = .ok b ↔ ∃ a, x = .ok a ∧ b = f a := by
  cases x with
  | error error =>
    refine iff_of_false (fun h => ?_) (fun ⟨a, h, _⟩ => ?_)
    · cases h
    · cases h
  | ok a =>
    constructor
    · rintro ⟨⟩
      exact ⟨a, rfl, rfl⟩
    · rintro ⟨a, ⟨⟩, rfl⟩
      rfl

/-- Runs whose steps correspond, while what they need holds. -/
theorem foldlM_related {step : β → α → Except ε β} {step' : γ → α → Except ε γ} {g : β → γ} {P : β → Prop}
    {xs : List α} {start : β} (hstart : P start)
    (h : ∀ before, P before → ∀ x ∈ xs, step' (g before) x = (step before x).map g ∧
      ∀ after, step before x = .ok after → P after) :
    xs.foldlM step' (g start) = (xs.foldlM step start).map g := by
  induction xs generalizing start with
  | nil => rfl
  | cons x xs ih =>
    obtain ⟨hstep, hnext⟩ := h start hstart x List.mem_cons_self
    rw [List.foldlM_cons, List.foldlM_cons, hstep]
    cases hresult : step start x with
    | error error => rfl
    | ok after =>
      apply ih (hnext after hresult)
      exact fun before hbefore y hy => h before hbefore y (List.mem_cons_of_mem x hy)

theorem foldlM_over {step : β → α → Except ε β} {step' : γ → α → Except ε γ} {g : β → γ} {xs : List α} {start : β}
    (h : ∀ before x, step' (g before) x = (step before x).map g) :
    xs.foldlM step' (g start) = (xs.foldlM step start).map g :=
  foldlM_related (P := fun _ => True) trivial fun before _ x _ => ⟨h before x, fun _ _ => trivial⟩

end Related

end Attempts
