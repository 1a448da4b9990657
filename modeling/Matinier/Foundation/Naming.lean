import Mathlib.Data.List.Basic
import Mathlib.Data.Set.Basic

/-!
# Names for what is heard

Things are heard one after the other, each from a source. Some bring a name with them, the others
are named after a number. The names tell the sources apart where the things without a name have
one number just if they have one source, and no name that is brought along is one of a number.
-/

namespace Matinier

theorem places_trichotomy {α : Type*} {before after before' after' : List α} {x y : α}
    (h : before ++ x :: after = before' ++ y :: after') :
    (before = before' ∧ x = y ∧ after = after') ∨
      (∃ between, before' = before ++ x :: between ∧ after = between ++ y :: after') ∨
      ∃ between, before = before' ++ y :: between ∧ after' = between ++ x :: after := by
  rcases List.append_eq_append_iff.mp h with ⟨rest, hbefore, hrest⟩ | ⟨rest, hbefore, hrest⟩
  · cases rest with
    | nil =>
      rw [List.append_nil] at hbefore
      obtain ⟨hx, hafter⟩ := List.cons_eq_cons.mp hrest
      exact Or.inl ⟨hbefore.symm, hx, hafter⟩
    | cons z rest =>
      obtain ⟨rfl, hafter⟩ := List.cons_eq_cons.mp hrest
      exact Or.inr (Or.inl ⟨rest, hbefore, hafter⟩)
  · cases rest with
    | nil =>
      rw [List.append_nil] at hbefore
      obtain ⟨hy, hafter⟩ := List.cons_eq_cons.mp hrest
      exact Or.inl ⟨hbefore, hy.symm, hafter.symm⟩
    | cons z rest =>
      obtain ⟨rfl, hafter⟩ := List.cons_eq_cons.mp hrest
      exact Or.inr (Or.inr ⟨rest, hbefore, hafter⟩)

def places {α : Type*} (l : List α) : Set (List α × α) :=
  {place | ∃ after, l = place.1 ++ place.2 :: after}

theorem mem_of_mem_places {α : Type*} {l : List α} {place : List α × α}
    (h : place ∈ places l) : place.2 ∈ l := by
  obtain ⟨after, rfl⟩ := h
  simp

theorem mem_places_append {α : Type*} {l : List α} {x : α} {place : List α × α} :
    place ∈ places (l ++ [x]) ↔ place ∈ places l ∨ place = (l, x) := by
  constructor
  · rintro ⟨after, h⟩
    have hx : l ++ x :: [] = place.1 ++ place.2 :: after := h
    rcases places_trichotomy hx with ⟨hl, hx, -⟩ | ⟨m, -, hm⟩ | ⟨m, hm, -⟩
    · exact Or.inr (Prod.ext hl.symm hx.symm)
    · simp at hm
    · exact Or.inl ⟨m, hm⟩
  · rintro (⟨after, rfl⟩ | rfl)
    · exact ⟨after ++ [x], by simp⟩
    · exact ⟨[], rfl⟩

/-- What is said by a source: the name it brings along, and whether the source is done with it. -/
structure Said (υ ν : Type) where
  source : υ
  own : Option ν
  closes : Bool
  deriving DecidableEq

namespace Said

variable {υ ν : Type}

/-- The name of what is said, where it is counted under a number. -/
def nameUnder (name : ℕ → ν) (x : Said υ ν) (number : ℕ) : ν := x.own.getD (name number)

/-- The sources are told apart by the names they bring along, and each brings its name always or
never. -/
structure OwnNames (l : List (Said υ ν)) : Prop where
  same : ∀ x ∈ l, ∀ y ∈ l, x.source = y.source → x.own = y.own
  apart : ∀ x ∈ l, ∀ y ∈ l, x.own = y.own → x.own ≠ none → x.source = y.source

/-- A source without a name is done before another one begins, and says nothing then. -/
structure TakesTurns (l : List (Said υ ν)) : Prop where
  closed : ∀ before x after, l = before ++ x :: after → x.own = none → x.closes = true →
    ∀ y ∈ after, y.source ≠ x.source
  first : ∀ before x between y after, l = before ++ x :: between ++ y :: after → x.own = none →
    (∀ z ∈ before ++ x :: between, z.source ≠ y.source) →
      ∃ z ∈ x :: between, z.source = x.source ∧ z.closes = true

/-- Two things that are heard have one name just if they have one source. -/
def Consistent {ι : Type} (heard : Set ι) (said : ι → Said υ ν) (number : ι → ℕ) (name : ℕ → ν) :
    Prop :=
  ∀ i ∈ heard, ∀ j ∈ heard, (said i).source = (said j).source ↔
    (said i).nameUnder name (number i) = (said j).nameUnder name (number j)

/-- Things without a name have one number just if they have one source. -/
def NumbersTell {ι : Type} (heard : Set ι) (said : ι → Said υ ν) (number : ι → ℕ) : Prop :=
  ∀ i ∈ heard, ∀ j ∈ heard, (said i).own = none → (said j).own = none →
    ((said i).source = (said j).source ↔ number i = number j)

/-- No name that is brought along is the name of a number that is used. -/
def NamesApart {ι : Type} (heard : Set ι) (said : ι → Said υ ν) (number : ι → ℕ) (name : ℕ → ν) :
    Prop :=
  ∀ i ∈ heard, ∀ j ∈ heard, (said j).own = none → (said i).own ≠ some (name (number j))

section Consistent

variable {ι : Type} {heard : Set ι} {said : ι → Said υ ν} {number : ι → ℕ} {name : ℕ → ν}
  {l : List (Said υ ν)}

theorem consistent_iff (hinjective : Function.Injective name) (hnames : OwnNames l)
    (hsaid : ∀ i ∈ heard, said i ∈ l) :
    Consistent heard said number name ↔
      NumbersTell heard said number ∧ NamesApart heard said number name := by
  constructor
  · intro h
    constructor
    · intro i hi j hj hown hown'
      have hij := h i hi j hj
      rwa [nameUnder, nameUnder, hown, hown', Option.getD_none, Option.getD_none,
        hinjective.eq_iff] at hij
    · intro i hi j hj hown hsame
      have hij := (h i hi j hj).mpr (by rw [nameUnder, nameUnder, hown, hsame]; rfl)
      rw [hnames.same _ (hsaid i hi) _ (hsaid j hj) hij, hown] at hsame
      cases hsame
  · rintro ⟨hnumbers, hapart⟩ i hi j hj
    cases hown : (said i).own with
    | none =>
      cases hown' : (said j).own with
      | none =>
        rw [hnumbers i hi j hj hown hown', nameUnder, nameUnder, hown, hown', Option.getD_none,
          Option.getD_none, hinjective.eq_iff]
      | some own =>
        constructor
        · intro hsource
          have hsame := hnames.same _ (hsaid i hi) _ (hsaid j hj) hsource
          rw [hown, hown'] at hsame
          cases hsame
        · intro hname
          rw [nameUnder, nameUnder, hown, hown', Option.getD_none, Option.getD_some] at hname
          exact absurd (hown'.trans (congrArg some hname.symm)) (hapart j hj i hi hown)
    | some own =>
      constructor
      · intro hsource
        have hsame := hnames.same _ (hsaid i hi) _ (hsaid j hj) hsource
        rw [nameUnder, nameUnder, ← hsame, hown]
        rfl
      · intro hname
        cases hown' : (said j).own with
        | none =>
          rw [nameUnder, nameUnder, hown, hown', Option.getD_none, Option.getD_some] at hname
          exact absurd (hown.trans (congrArg some hname)) (hapart i hi j hj hown')
        | some own' =>
          rw [nameUnder, nameUnder, hown, hown', Option.getD_some, Option.getD_some] at hname
          apply hnames.apart _ (hsaid i hi) _ (hsaid j hj)
          · rw [hown, hown', hname]
          · simp [hown]

/-- The list of what was named tells the sources apart just if the names do. -/
theorem consistent_of_named {named : List (υ × Option ν)}
    (h : ∀ source segment, (source, segment) ∈ named ↔ ∃ i ∈ heard, source = (said i).source ∧
      segment = some ((said i).nameUnder name (number i))) :
    (∀ e ∈ named, ∀ e' ∈ named, e.1 = e'.1 ↔ e.2 = e'.2) ↔
      Consistent heard said number name := by
  constructor
  · intro hnamed i hi j hj
    have hij := hnamed _ ((h _ _).mpr ⟨i, hi, rfl, rfl⟩) _ ((h _ _).mpr ⟨j, hj, rfl, rfl⟩)
    rwa [Option.some_inj] at hij
  · rintro hconsistent ⟨u, s⟩ he ⟨u', s'⟩ he'
    obtain ⟨i, hi, rfl, rfl⟩ := (h u s).mp he
    obtain ⟨j, hj, rfl, rfl⟩ := (h u' s').mp he'
    rw [Option.some_inj]
    exact hconsistent i hi j hj

end Consistent
section Turns

variable {l before between after : List (Said υ ν)} {x y : Said υ ν}

theorem exists_first {p : Said υ ν → Prop} (h : ∃ x ∈ l, p x) :
    ∃ before x after, l = before ++ x :: after ∧ p x ∧ ∀ z ∈ before, ¬ p z := by
  induction l with
  | nil =>
    obtain ⟨x, hx, -⟩ := h
    cases hx
  | cons z l ih =>
    by_cases hz : p z
    · exact ⟨[], z, l, rfl, hz, nofun⟩
    · obtain ⟨x, hx, hpx⟩ := h
      have hmem : x ∈ l := (List.mem_cons.mp hx).resolve_left fun heq => hz (heq ▸ hpx)
      obtain ⟨before, w, after, rfl, hw, hbefore⟩ := ih ⟨x, hmem, hpx⟩
      refine ⟨z :: before, w, after, rfl, hw, fun v hv => ?_⟩
      rcases List.mem_cons.mp hv with rfl | hv
      · exact hz
      · exact hbefore v hv

theorem TakesTurns.silent {middle : List (Said υ ν)} (h : TakesTurns l) (hnames : OwnNames l)
    (hl : l = before ++ middle ++ after) (hx : x ∈ l) (hown : x.own = none)
    (hclosed : ∃ z ∈ middle, z.source = x.source ∧ z.closes = true) (hy : y ∈ after) :
    y.source ≠ x.source := by
  obtain ⟨z, hz, hsource, hcloses⟩ := hclosed
  obtain ⟨b, a, rfl⟩ := List.append_of_mem hz
  have hl' : l = (before ++ b) ++ z :: (a ++ after) := by
    rw [hl]
    simp
  have hzown : z.own = none := (hnames.same z (by simp [hl']) x hx hsource).trans hown
  rw [← hsource]
  exact h.closed _ z _ hl' hzown hcloses y (by simp [hy])

theorem TakesTurns.closed_between (h : TakesTurns l) (hnames : OwnNames l)
    (hl : l = before ++ x :: between ++ y :: after) (hx : x.own = none) (hy : y.own = none)
    (hne : y.source ≠ x.source) : ∃ z ∈ x :: between, z.source = x.source ∧ z.closes = true := by
  have hyl : y ∈ l := by simp [hl]
  have hxl : x ∈ l := by simp [hl]
  have hxplace : l = before ++ x :: (between ++ y :: after) := by simp [hl]
  -- The place at which the source of `y` begins.
  obtain ⟨b, z, a, hz, hsource, hfirst⟩ :=
    exists_first (p := fun z => z.source = y.source) ⟨y, hyl, rfl⟩
  have hzl : z ∈ l := by simp [hz]
  have hzown : z.own = none := (hnames.same z hzl y hyl hsource).trans hy
  rcases places_trichotomy (hxplace.symm.trans hz) with
    ⟨-, rfl, -⟩ | ⟨rest, rfl, hafter⟩ | ⟨rest, rfl, hafter⟩
  · exact absurd hsource.symm hne
  · -- It begins behind `x`, no later than `y`: the source of `x` is done by then.
    obtain ⟨w, hw, hdone⟩ := h.first before x rest z a (by simp [hz]) hx fun v hv => by
      rw [hsource]
      exact hfirst v hv
    refine ⟨w, ?_, hdone⟩
    rcases places_trichotomy hafter with ⟨rfl, -, -⟩ | ⟨m, rfl, -⟩ | ⟨m, rfl, -⟩
    · exact hw
    · exact absurd rfl (hfirst y (by simp))
    · rw [← List.cons_append]
      exact List.mem_append_left _ hw
  · -- It begins before `x`: one of the two is done when the other begins, and is heard again.
    obtain ⟨b', w, a', hw, hwsource, hwfirst⟩ :=
      exists_first (p := fun w => w.source = x.source) ⟨x, hxl, rfl⟩
    have hwl : w ∈ l := by simp [hw]
    have hwown : w.own = none := (hnames.same w hwl x hxl hwsource).trans hx
    have hbehind : y ∈ a' := by
      rcases places_trichotomy (hw.symm.trans hxplace) with ⟨-, -, rfl⟩ | ⟨m, -, rfl⟩ | ⟨m, rfl, -⟩
      · simp
      · simp
      · exact absurd rfl (hwfirst x (by simp))
    rcases places_trichotomy (hz.symm.trans hw) with ⟨-, rfl, -⟩ | ⟨m, rfl, -⟩ | ⟨m, rfl, -⟩
    · exact absurd (hsource.symm.trans hwsource) hne
    · have hdone := h.first b z m w a' (by simp [hw]) hzown fun v hv => by
        rw [hwsource]
        exact hwfirst v hv
      have hl' : l = b ++ (z :: m) ++ (w :: a') := by simp [hw]
      exact absurd hsource.symm
        (h.silent hnames hl' hzl hzown hdone (List.mem_cons_of_mem _ hbehind))
    · have hdone := h.first b' w m z a (by simp [hz]) hwown fun v hv => by
        rw [hsource]
        exact hfirst v hv
      have hl' : l = b' ++ (w :: m) ++ (z :: a) := by simp [hz]
      have hxa : x ∈ z :: a := by simp [hafter]
      exact absurd hwsource.symm (h.silent hnames hl' hwl hwown hdone hxa)

theorem TakesTurns.open_between (h : TakesTurns l) (hnames : OwnNames l)
    (hl : l = before ++ x :: between ++ y :: after) (hx : x.own = none)
    (hsame : y.source = x.source) : ∀ z ∈ x :: between, z.own = none → z.closes = false := by
  intro z hz hown
  have hxl : x ∈ l := by simp [hl]
  have hl' : l = before ++ (x :: between) ++ (y :: after) := by simp [hl]
  rw [Bool.eq_false_iff]
  intro hcloses
  by_cases hsource : z.source = x.source
  · exact h.silent hnames hl' hxl hx ⟨z, hz, hsource, hcloses⟩ List.mem_cons_self hsame
  · have hbetween : z ∈ between := (List.mem_cons.mp hz).resolve_left fun heq =>
      hsource (by rw [heq])
    obtain ⟨m, rest, rfl⟩ := List.append_of_mem hbetween
    have hzplace : l = before ++ x :: m ++ z :: (rest ++ y :: after) := by simp [hl]
    have hdone := h.closed_between hnames hzplace hx hown hsource
    have hl'' : l = before ++ (x :: m) ++ (z :: (rest ++ y :: after)) := by simp [hl]
    exact h.silent hnames hl'' hxl hx hdone (by simp) hsame

end Turns

end Said

end Matinier
