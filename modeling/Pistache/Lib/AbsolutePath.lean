/-!
# Absolute paths as texts

The text of an absolute path puts a separator before each component; the root alone is the
separator.  A component is a text without separators that is not empty.

* `text_isPrefix` — a text of a path begins with the text of another exactly when the
  components do, or when they do up to the last, which the path goes on from.
-/

set_option autoImplicit false

namespace AbsolutePath

variable {α : Type} (sep : α)

/-- Components of paths. -/
def Components (cs : List (List α)) : Prop := ∀ c ∈ cs, c ≠ [] ∧ sep ∉ c

def body : List (List α) → List α
  | [] => []
  | c :: cs => sep :: (c ++ body cs)

def text (cs : List (List α)) : List α :=
  match cs with
  | [] => [sep]
  | c :: cs => body sep (c :: cs)

/-- The path leaves the directory at its last component, to one whose name is longer. -/
def Beside (dir path : List (List α)) : Prop :=
  ∃ parent name more rest, more ≠ [] ∧ dir = parent ++ [name] ∧
    path = parent ++ (name ++ more) :: rest

variable {sep}

theorem not_isPrefix_of_beside {dir path : List (List α)} (h : Beside dir path) :
    ¬dir <+: path := by
  obtain ⟨parent, name, more, rest, hmore, rfl, rfl⟩ := h
  intro hpre
  rw [List.prefix_append_right_inj] at hpre
  have heq := (List.cons_prefix_cons.mp hpre).1
  have hlen := congrArg List.length heq
  rw [List.length_append] at hlen
  exact hmore (List.length_eq_zero_iff.mp (by omega))

/-- Two components before what begins with a separator or is at its end. -/
theorem component_isPrefix {c d xs ys : List α} (hc : sep ∉ c) (hd : sep ∉ d)
    (hxs : xs.head? = some sep) (hys : ys = [] ∨ ys.head? = some sep)
    (h : c ++ xs <+: d ++ ys) : c = d ∧ xs <+: ys := by
  induction c generalizing d with
  | nil =>
    obtain ⟨xs, rfl⟩ : ∃ t, xs = sep :: t := by
      cases xs with
      | nil => cases hxs
      | cons x t =>
        obtain rfl := Option.some.inj hxs
        exact ⟨t, rfl⟩
    cases d with
    | nil => exact ⟨rfl, h⟩
    | cons y d =>
      have := (List.cons_prefix_cons.mp h).1
      exact absurd (List.mem_cons_self) (this ▸ hd)
  | cons x c ih =>
    cases d with
    | nil =>
      rcases hys with rfl | hys
      · simp at h
      · cases ys with
        | nil => cases hys
        | cons y ys =>
          obtain rfl := Option.some.inj hys
          have := (List.cons_prefix_cons.mp h).1
          exact absurd List.mem_cons_self (this ▸ hc)
    | cons y d =>
      obtain ⟨rfl, hrest⟩ := List.cons_prefix_cons.mp h
      obtain ⟨rfl, hpre⟩ := ih (fun hm => hc (List.mem_cons_of_mem _ hm))
        (fun hm => hd (List.mem_cons_of_mem _ hm)) hrest
      exact ⟨rfl, hpre⟩

/-- A component that begins another, in front of anything that begins with a separator. -/
theorem last_isPrefix {c d ys : List α} (hc : sep ∉ c) (hys : ys = [] ∨ ys.head? = some sep)
    (h : c <+: d ++ ys) : c <+: d := by
  induction c generalizing d with
  | nil => exact List.nil_prefix
  | cons x c ih =>
    cases d with
    | nil =>
      rcases hys with rfl | hys
      · simp at h
      · cases ys with
        | nil => cases hys
        | cons y ys =>
          obtain rfl := Option.some.inj hys
          have := (List.cons_prefix_cons.mp h).1
          exact absurd List.mem_cons_self (this ▸ hc)
    | cons y d =>
      obtain ⟨rfl, hrest⟩ := List.cons_prefix_cons.mp h
      exact List.cons_prefix_cons.mpr ⟨rfl, ih (fun hm => hc (List.mem_cons_of_mem _ hm)) hrest⟩

theorem body_head (cs : List (List α)) : body sep cs = [] ∨ (body sep cs).head? = some sep := by
  cases cs with
  | nil => exact .inl rfl
  | cons c cs => exact .inr rfl

theorem beside_single {c : List α} {path : List (List α)} :
    Beside [c] path ↔ ∃ more rest, more ≠ [] ∧ path = (c ++ more) :: rest := by
  constructor
  · rintro ⟨parent, name, more, rest, hmore, hdir, rfl⟩
    cases parent with
    | nil =>
      obtain ⟨rfl, -⟩ := List.cons.inj hdir
      exact ⟨more, rest, hmore, rfl⟩
    | cons x parent => simp at hdir
  · rintro ⟨more, rest, hmore, rfl⟩
    exact ⟨[], c, more, rest, hmore, rfl, rfl⟩

theorem beside_cons {c e : List α} {dir path : List (List α)} :
    Beside (c :: e :: dir) path ↔ ∃ path', path = c :: path' ∧ Beside (e :: dir) path' := by
  constructor
  · rintro ⟨parent, name, more, rest, hmore, hdir, rfl⟩
    cases parent with
    | nil => simp at hdir
    | cons x parent =>
      obtain ⟨rfl, hdir'⟩ := List.cons.inj hdir
      exact ⟨_, rfl, parent, name, more, rest, hmore, hdir', rfl⟩
  · rintro ⟨path', rfl, parent, name, more, rest, hmore, hdir, rfl⟩
    exact ⟨c :: parent, name, more, rest, hmore, by rw [hdir]; rfl, rfl⟩

theorem body_isPrefix {dir : List (List α)} : ∀ {path : List (List α)}, Components sep dir →
    Components sep path →
    (body sep dir <+: body sep path ↔ dir <+: path ∨ Beside dir path) := by
  induction dir with
  | nil => exact fun _ _ => iff_of_true List.nil_prefix (.inl List.nil_prefix)
  | cons c dir ih =>
    intro path hdir hpath
    have hc := hdir c List.mem_cons_self
    cases path with
    | nil =>
      refine iff_of_false (by simp [body]) ?_
      rintro (h | ⟨parent, name, more, rest, -, -, h⟩)
      · simp at h
      · simp at h
    | cons d path =>
      have hd := hpath d List.mem_cons_self
      simp only [body, List.cons_prefix_cons, true_and]
      cases dir with
      | nil =>
        rw [beside_single]
        constructor
        · intro h
          simp only [body, List.append_nil] at h
          obtain ⟨more, rfl⟩ := last_isPrefix hc.2 (body_head path) h
          cases more with
          | nil => exact .inl ⟨by simp, List.nil_prefix⟩
          | cons x more => exact .inr ⟨x :: more, path, by simp, rfl⟩
        · rintro (⟨rfl, -⟩ | ⟨more, rest, -, heq⟩)
          · simp [body]
          · obtain ⟨rfl, -⟩ := List.cons.inj heq
            simp [body]
      | cons e dir =>
        have ih' := ih (fun x hx => hdir x (List.mem_cons_of_mem _ hx))
          (fun x hx => hpath x (List.mem_cons_of_mem _ hx))
        rw [beside_cons]
        constructor
        · intro h
          obtain ⟨rfl, hpre⟩ := component_isPrefix hc.2 hd.2 rfl (body_head path) h
          rcases ih'.mp hpre with h | h
          · exact .inl ⟨rfl, h⟩
          · exact .inr ⟨path, rfl, h⟩
        · rintro (⟨rfl, h⟩ | ⟨path', heq, h⟩)
          · exact (List.prefix_append_right_inj c).mpr (ih'.mpr (.inl h))
          · obtain ⟨rfl, rfl⟩ := List.cons.inj heq
            exact (List.prefix_append_right_inj d).mpr (ih'.mpr (.inr h))

/-- **Texts of paths**: the text of a directory begins the texts of the paths in it, and of
those beside it. -/
theorem text_isPrefix {dir path : List (List α)} (hdir : Components sep dir)
    (hpath : Components sep path) :
    text sep dir <+: text sep path ↔ dir <+: path ∨ Beside dir path := by
  cases dir with
  | nil =>
    refine iff_of_true ?_ (.inl List.nil_prefix)
    cases path with
    | nil => exact List.prefix_refl _
    | cons d path => exact List.cons_prefix_cons.mpr ⟨rfl, List.nil_prefix⟩
  | cons c dir =>
    cases path with
    | nil =>
      have hc := (hdir c List.mem_cons_self).1
      refine iff_of_false ?_ ?_
      · intro h
        have := (List.cons_prefix_cons.mp h).2
        simp [hc] at this
      · rintro (h | ⟨parent, name, more, rest, -, -, h⟩)
        · simp at h
        · simp at h
    | cons d path => exact body_isPrefix hdir hpath

end AbsolutePath
