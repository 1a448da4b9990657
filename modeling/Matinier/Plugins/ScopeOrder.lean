import Mathlib.Tactic.NormNum
import Matinier.Assistant.ApprovedGrant
import Matinier.Plugins.Permissions

/-!
# The order of scopes

Grants of the assistant and grants of plugins are compared by two copies of one check. The two
agree, and what the check lets through is a preorder: a scope that is taken from another one in
any number of steps, each of which narrows, is within the first.
-/

namespace Matinier

namespace Json

/-- What a value that is no list and no object is compared by. -/
def scalarKey : Json → Option (Option ℚ ⊕ String)
  | .null => some (.inl none)
  | .bool b => some (.inl (some (if b then 1 else 0)))
  | .num n => some (.inl (some n))
  | .float q => some (.inl (some q))
  | .str s => some (.inr s)
  | .arr _ => none
  | .obj _ => none

theorem eqv_iff_scalarKey {a b : Json} (ha : a.scalarKey ≠ none) :
    a.eqv b = true ↔ a.scalarKey = b.scalarKey := by
  cases a with
  | arr items => exact absurd rfl ha
  | obj entries => exact absurd rfl ha
  | null => cases b <;> simp [eqv, scalarKey]
  | bool t => cases b <;> cases t <;> simp [eqv, scalarKey, apply_ite] <;> norm_cast
  | num n =>
    cases b <;> simp [eqv, scalarKey]
    norm_cast
  | float q => cases b <;> simp [eqv, scalarKey]
  | str s => cases b <;> simp [eqv, scalarKey]

end Json

namespace Assistant

open Json

theorem scalarKey_ne_none {value : Json} (hobj : ∀ entries, value ≠ .obj entries)
    (harr : ∀ items, value ≠ .arr items) : value.scalarKey ≠ none := by
  cases value with
  | obj entries => exact absurd rfl (hobj entries)
  | arr items => exact absurd rfl (harr items)
  | null | bool _ | num _ | float _ | str _ => exact Option.some_ne_none _

theorem ScopeContains.not_list {granted derived : Json} (h : ScopeContains granted derived)
    (hgranted : ∀ items, granted ≠ .arr items) (items : List Json) : derived ≠ .arr items := by
  cases h with
  | value hobj harr heq =>
    rw [eqv_iff_scalarKey (scalarKey_ne_none hobj harr)] at heq
    rintro rfl
    exact scalarKey_ne_none hobj harr heq
  | object _ _ _ => exact nofun
  | items _ _ _ => exact absurd rfl (hgranted _)
  | item _ _ _ => exact absurd rfl (hgranted _)

theorem ScopeContains.trans {granted derived requested : Json}
    (h : ScopeContains granted derived) (h' : ScopeContains derived requested) :
    ScopeContains granted requested := by
  induction h generalizing requested with
  | @value granted derived hobj harr heq =>
    have hgranted := scalarKey_ne_none hobj harr
    rw [eqv_iff_scalarKey hgranted] at heq
    cases h' with
    | value hobj' harr' heq' =>
      rw [eqv_iff_scalarKey (scalarKey_ne_none hobj' harr')] at heq'
      exact .value hobj harr ((eqv_iff_scalarKey hgranted).mpr (heq.trans heq'))
    | object _ _ _ => exact absurd heq hgranted
    | items _ _ _ => exact absurd heq hgranted
    | item _ _ _ => exact absurd heq hgranted
  | @object granted derived value found _ ih =>
    cases h' with
    | value hobj _ _ => exact absurd rfl (hobj derived)
    | object value' found' within' =>
      -- An entry that is requested has the entry of the scope in between under its key.
      have hmem : ∀ entry ∈ _, (entry.1, value' entry) ∈ derived := fun entry hentry =>
        mem_of_lookup (found' entry hentry)
      exact .object (fun entry => value (entry.1, value' entry))
        (fun entry hentry => found _ (hmem entry hentry))
        (fun entry hentry => ih _ (hmem entry hentry) (within' entry hentry))
  | @items granted derived value found _ ih =>
    cases h' with
    | value _ harr _ => exact absurd rfl (harr derived)
    | items value' found' within' =>
      exact .items (fun item => value (value' item))
        (fun item hitem => found _ (found' item hitem))
        (fun item hitem => ih _ (found' item hitem) (within' item hitem))
    | item single found' within' => exact .item single (found _ found') (ih _ found' within')
  | item single hallowed _ ih => exact .item (h'.not_list single) hallowed (ih h')

end Assistant

namespace Plugins

open Assistant

theorem scopeValueAllows_eq (authorized requested : Json) :
    scopeValueAllows authorized requested = Assistant.scopeValueAllows authorized requested := by
  induction authorized using Json.induction generalizing requested with
  | null | bool _ | num _ | float _ | str _ =>
    simp only [scopeValueAllows, Assistant.scopeValueAllows]
  | arr items ih =>
    have hany : ∀ value, anyAllows items value = scopeItemAllows items value := by
      intro value
      clear requested
      induction items with
      | nil => rfl
      | cons item rest ihrest =>
        rw [anyAllows, scopeItemAllows, ih item List.mem_cons_self,
          ihrest fun item hitem => ih item (List.mem_cons_of_mem _ hitem)]
    cases requested <;> simp only [scopeValueAllows, Assistant.scopeValueAllows, hany]
  | obj entries ih =>
    have hentry : ∀ key value,
        entryAllows entries key value = scopeEntryAllows entries key value := by
      intro key value
      clear requested
      induction entries with
      | nil => rfl
      | cons entry rest ihrest =>
        rw [entryAllows, scopeEntryAllows, ih entry List.mem_cons_self,
          ihrest fun entry hentry => ih entry (List.mem_cons_of_mem _ hentry)]
    cases requested <;> simp only [scopeValueAllows, Assistant.scopeValueAllows, hentry]

/-- The value of a scope: the objects in it are dictionaries. -/
def ScopeValue : Type := {value : Json // value.KeysUnique}

namespace ScopeValue

/-- The first scope covers the second one. -/
def Covers (granted derived : ScopeValue) : Prop :=
  Assistant.scopeValueAllows granted.1 derived.1 = true

theorem Covers.refl (scope : ScopeValue) : scope.Covers scope :=
  scopeValueAllows_eq_true.mpr (.self scope.2)

theorem Covers.trans {granted derived requested : ScopeValue} (h : granted.Covers derived)
    (h' : derived.Covers requested) : granted.Covers requested :=
  scopeValueAllows_eq_true.mpr
    ((scopeValueAllows_eq_true.mp h).trans (scopeValueAllows_eq_true.mp h'))

/-- Each scope of the list is derived from the one before it. -/
def Attenuates (first : ScopeValue) (derived : List ScopeValue) : Prop :=
  List.IsChain Covers (first :: derived)

/-- Containment of scopes is a preorder, so that no chain of derivations widens the first scope;
and the evaluator of plugin permissions lets the same pairs through. -/
theorem covers_preorder :
    (∀ scope : ScopeValue, scope.Covers scope) ∧
      (∀ granted derived requested : ScopeValue, granted.Covers derived →
        derived.Covers requested → granted.Covers requested) ∧
      (∀ (first : ScopeValue) (chain : List ScopeValue), first.Attenuates chain →
        ∀ derived ∈ chain, first.Covers derived) ∧
      ∀ authorized requested : Json, scopeValueAllows authorized requested =
        Assistant.scopeValueAllows authorized requested := by
  refine ⟨Covers.refl, fun _ _ _ => Covers.trans, ?_, scopeValueAllows_eq⟩
  intro first chain hchain derived hderived
  unfold Attenuates at hchain
  induction chain generalizing first with
  | nil => cases hderived
  | cons next rest ih =>
    obtain ⟨hnext, hrest⟩ := List.isChain_cons_cons.mp hchain
    rcases List.mem_cons.mp hderived with rfl | hderived
    · exact hnext
    · exact hnext.trans (ih next hrest hderived)

end ScopeValue
end Plugins
end Matinier
