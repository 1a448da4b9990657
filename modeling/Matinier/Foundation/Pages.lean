import Mathlib.Data.List.Basic

/-!
# Pages of a list

A list is read page by page: a reader asks from a position on and goes on where the page said.
What the pages are cut at does not matter. The list is delivered completely where every page takes
what comes next, unless one of its elements fits no page of its own.
-/

namespace Matinier

section Walk

variable {α ε : Type}

/-- What a page of a list is from a position on. -/
inductive PageOf (items : List α) (Fits : List α → Prop) (most : ℕ) (fault : ε) (after : ℕ) :
    Except ε (List α × Option ℕ) → Prop
  | past (h : items.length ≤ after) : PageOf items Fits most fault after (.ok ([], none))
  | page {page left : List α} (h : items.drop after = page ++ left) (hne : page ≠ [])
      (hmost : page.length ≤ most) (hfits : Fits page) :
      PageOf items Fits most fault after
        (.ok (page, if left = [] then none else some (after + page.length)))
  | tooLarge {item : α} {rest : List α} (h : items.drop after = item :: rest)
      (hlarge : ¬ Fits [item]) : PageOf items Fits most fault after (.error fault)

/-- A reader asks from a position on, and goes on from where the page says, until there is no such
place or a query fails. The pages are listed with the positions they were asked from. -/
inductive Walk (page : ℕ → ℕ → Except ε (List α × Option ℕ)) :
    ℕ → ℕ → List (ℕ × List α) → Option ε → Prop
  | last {n after : ℕ} {items : List α} (h : page n after = .ok (items, none)) :
      Walk page n after [(after, items)] none
  | more {n after next : ℕ} {items : List α} {pages : List (ℕ × List α)} {outcome : Option ε}
      (h : page n after = .ok (items, some next)) (rest : Walk page (n + 1) next pages outcome) :
      Walk page n after ((after, items) :: pages) outcome
  | fails {n after : ℕ} {e : ε} (h : page n after = .error e) : Walk page n after [] (some e)

/-- What was delivered of a list: all of it, or everything before an element that is too large. -/
structure Delivered (items : List α) (Fits : List α → Prop) (most : ℕ → ℕ) (fault : ε)
    (pages : List (ℕ × List α)) (outcome : Option ε) : Prop where
  complete : outcome = none → (pages.map Prod.snd).flatten = items
  stopped : ∀ e, outcome = some e → e = fault ∧ ∃ item rest,
    items = (pages.map Prod.snd).flatten ++ item :: rest ∧ ¬ Fits [item]
  cursors : (pages.map Prod.fst).Pairwise (· < ·)
  bounded : ∀ i after page, pages[i]? = some (after, page) → page.length ≤ most i
  nonempty : ∀ after page, (after, page) ∈ pages → page = [] → items = [] ∧ pages = [(after, [])]
  fits : ∀ after page, (after, page) ∈ pages → page ≠ [] → Fits page

variable {items : List α} {Fits : List α → Prop} {most : ℕ → ℕ} {fault : ε}
  {page : ℕ → ℕ → Except ε (List α × Option ℕ)} {n after : ℕ} {pages : List (ℕ × List α)}
  {outcome : Option ε}

/-- Every walk comes to an end. -/
theorem walk_ends (hpage : ∀ n after, PageOf items Fits (most n) fault after (page n after))
    (n after : ℕ) : ∃ pages outcome, Walk page n after pages outcome := by
  induction hleft : items.length - after using Nat.strongRecOn generalizing n after with
  | ind left ih =>
    generalize hresult : page n after = result
    have hspec := hpage n after
    rw [hresult] at hspec
    cases hspec with
    | past h => exact ⟨_, _, .last hresult⟩
    | tooLarge h hlarge => exact ⟨_, _, .fails hresult⟩
    | @page taken rest h hne hmost hfits =>
      split_ifs at hresult with hrest
      · exact ⟨_, _, .last hresult⟩
      · have hlength := congrArg List.length h
        rw [List.length_drop, List.length_append] at hlength
        have htaken := List.length_pos_iff.mpr hne
        obtain ⟨pages, outcome, hwalk⟩ := ih _ (by omega) (n + 1) (after + taken.length) rfl
        exact ⟨_, _, .more hresult hwalk⟩

theorem PageOf.last_inv {taken : List α} {most : ℕ}
    (h : PageOf items Fits most fault after (.ok (taken, none))) (hafter : after < items.length) :
    items.drop after = taken ∧ taken ≠ [] ∧ taken.length ≤ most ∧ Fits taken := by
  generalize hresult : (Except.ok (taken, none) : Except ε (List α × Option ℕ)) = result at h
  cases h with
  | past h => omega
  | tooLarge h hlarge => cases hresult
  | @page taken' left h hne hmost hfits =>
    split_ifs at hresult with hleft
    · cases hresult
      rw [hleft, List.append_nil] at h
      exact ⟨h, hne, hmost, hfits⟩
    · cases hresult

theorem PageOf.more_inv {taken : List α} {next most : ℕ}
    (h : PageOf items Fits most fault after (.ok (taken, some next))) :
    items.drop after = taken ++ items.drop next ∧ taken ≠ [] ∧ taken.length ≤ most ∧ Fits taken ∧
      after < next ∧ next < items.length := by
  generalize hresult : (Except.ok (taken, some next) : Except ε (List α × Option ℕ)) = result at h
  cases h with
  | past h => cases hresult
  | tooLarge h hlarge => cases hresult
  | @page taken' left h hne hmost hfits =>
    split_ifs at hresult with hleft
    · cases hresult
    · cases hresult
      have hdrop : items.drop (after + taken.length) = left := by
        rw [← List.drop_drop, h, List.drop_left]
      have htaken := List.length_pos_iff.mpr hne
      have hnext := List.length_pos_iff.mpr (hdrop ▸ hleft)
      rw [List.length_drop] at hnext
      exact ⟨by rw [hdrop, h], hne, hmost, hfits, by omega, by omega⟩

theorem PageOf.error_inv {most : ℕ} {e : ε} (h : PageOf items Fits most fault after (.error e)) :
    e = fault ∧ ∃ item rest, items.drop after = item :: rest ∧ ¬ Fits [item] := by
  generalize hresult : (Except.error e : Except ε (List α × Option ℕ)) = result at h
  cases h with
  | past h => cases hresult
  | tooLarge h hlarge =>
    cases hresult
    exact ⟨rfl, _, _, h, hlarge⟩
  | page h hne hmost hfits => cases hresult

/-- Where a walk begins inside the list, it delivers what is left of it. -/
theorem Walk.delivers (hpage : ∀ n after, PageOf items Fits (most n) fault after (page n after))
    (h : Walk page n after pages outcome) (hafter : after < items.length) :
    Delivered (items.drop after) Fits (fun i => most (n + i)) fault pages outcome ∧
      ∀ cursor ∈ pages.map Prod.fst, after ≤ cursor := by
  induction h with
  | @last n after taken h =>
    obtain ⟨hdrop, hne, hmost, hfits⟩ := (h ▸ hpage n after).last_inv hafter
    refine ⟨⟨?_, nofun, List.pairwise_singleton _ _, ?_, ?_, ?_⟩, ?_⟩
    · intro _
      rw [hdrop]
      exact List.append_nil _
    · intro i c p hi
      cases i with
      | zero =>
        cases hi
        exact hmost
      | succ i => cases hi
    · intro c p hp hempty
      cases List.mem_singleton.mp hp
      exact absurd hempty hne
    · intro c p hp _
      cases List.mem_singleton.mp hp
      exact hfits
    · intro c hc
      exact Nat.le_of_eq (List.mem_singleton.mp hc).symm
  | @fails n after e h =>
    obtain ⟨rfl, item, rest, hdrop, hlarge⟩ := (h ▸ hpage n after).error_inv
    refine ⟨⟨nofun, ?_, List.Pairwise.nil, nofun, nofun, nofun⟩, nofun⟩
    rintro e ⟨⟩
    exact ⟨rfl, item, rest, hdrop, hlarge⟩
  | @more n after next taken pages outcome h rest ih =>
    obtain ⟨hdrop, hne, hmost, hfits, hlt, hnext⟩ := (h ▸ hpage n after).more_inv
    obtain ⟨hrest, hcursors⟩ := ih hnext
    refine ⟨⟨?_, ?_, ?_, ?_, ?_, ?_⟩, ?_⟩
    · intro hnone
      rw [hdrop, ← hrest.complete hnone]
      rfl
    · intro e he
      obtain ⟨rfl, item, left, hleft, hlarge⟩ := hrest.stopped e he
      refine ⟨rfl, item, left, ?_, hlarge⟩
      rw [hdrop, hleft]
      exact (List.append_assoc _ _ _).symm
    · exact List.pairwise_cons.mpr
        ⟨fun c hc => Nat.lt_of_lt_of_le hlt (hcursors c hc), hrest.cursors⟩
    · intro i c p hi
      cases i with
      | zero =>
        cases hi
        exact hmost
      | succ i =>
        have hbound := hrest.bounded i c p hi
        rwa [Nat.add_right_comm] at hbound
    · intro c p hp hempty
      rcases List.mem_cons.mp hp with heq | hp
      · cases heq
        exact absurd hempty hne
      · exact absurd (hrest.nonempty c p hp hempty).1
          (List.ne_nil_of_length_pos (by rw [List.length_drop]; omega))
    · intro c p hp hp'
      rcases List.mem_cons.mp hp with heq | hp
      · cases heq
        exact hfits
      · exact hrest.fits c p hp hp'
    · intro c hc
      rcases List.mem_cons.mp hc with rfl | hc
      · exact Nat.le_refl _
      · exact Nat.le_trans (Nat.le_of_lt hlt) (hcursors c hc)

/-- A walk from the beginning delivers the list. -/
theorem Walk.delivered (hpage : ∀ n after, PageOf items Fits (most n) fault after (page n after))
    (h : Walk page 0 0 pages outcome) : Delivered items Fits most fault pages outcome := by
  rcases Nat.eq_zero_or_pos items.length with hempty | hpos
  · have hitems := List.eq_nil_of_length_eq_zero hempty
    cases h with
    | @last _ _ taken h =>
      have hspec := h ▸ hpage 0 0
      generalize hresult : (Except.ok (taken, none) : Except ε (List α × Option ℕ)) = result
        at hspec
      cases hspec with
      | past _ =>
        cases hresult
        refine ⟨fun _ => hitems.symm, nofun, List.pairwise_singleton _ _, ?_, ?_, ?_⟩
        · intro i c p hi
          cases i with
          | zero =>
            cases hi
            exact Nat.zero_le _
          | succ i => cases hi
        · intro c p hp _
          cases List.mem_singleton.mp hp
          exact ⟨hitems, rfl⟩
        · intro c p hp hne
          cases List.mem_singleton.mp hp
          exact absurd rfl hne
      | tooLarge h _ => cases hresult
      | @page _ left h hne _ _ =>
        rw [hitems] at h
        exact absurd (List.append_eq_nil_iff.mp h.symm).1 hne
    | more h rest =>
      have hnext := (h ▸ hpage 0 0).more_inv.2.2.2.2.2
      omega
    | fails h =>
      obtain ⟨-, item, rest, hdrop, -⟩ := (h ▸ hpage 0 0).error_inv
      rw [hitems] at hdrop
      cases hdrop
  · have hdelivers := (h.delivers hpage hpos).1
    simpa using hdelivers

end Walk

end Matinier
