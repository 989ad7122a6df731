import NurseryRota.Member

/-!
# Ratio rules

The rules say how many children of each band one member of staff may supervise.  Rules from a
configuration keep every number between 1 and 64.  The policy says how the need of a mixed
group is rounded.
-/

namespace NurseryRota

structure ByBand (α : Type) where
  underTwo : α
  twoYearOld : α
  threePlus : α
deriving DecidableEq, Repr

namespace ByBand

variable {α : Type}

def get (t : ByBand α) : Band → α
  | .underTwo => t.underTwo
  | .twoYearOld => t.twoYearOld
  | .threePlus => t.threePlus

def set (t : ByBand α) (b : Band) (x : α) : ByBand α :=
  match b with
  | .underTwo => { t with underTwo := x }
  | .twoYearOld => { t with twoYearOld := x }
  | .threePlus => { t with threePlus := x }

def toList (t : ByBand α) : List α := Band.all.map t.get

@[ext] theorem ext {s t : ByBand α} (h : ∀ b, s.get b = t.get b) : s = t := by
  cases s; cases t
  have h₁ := h .underTwo
  have h₂ := h .twoYearOld
  have h₃ := h .threePlus
  simp only [get] at h₁ h₂ h₃
  simp [h₁, h₂, h₃]

theorem get_set (t : ByBand α) (b c : Band) (x : α) :
    (t.set b x).get c = if c = b then x else t.get c := by
  cases b <;> cases c <;> rfl

end ByBand

/-- The number of children that one member of staff may supervise, by band. -/
abbrev Rules := ByBand Nat

/-- The largest number of children per member of staff that a configuration may allow. -/
def maxChildrenPerStaff : Nat := 64

structure RatioOutOfRange where
  band : Band
  ratio : Nat
deriving DecidableEq, Repr

def RatioOutOfRange.message (e : RatioOutOfRange) : String :=
  e.band.name ++ ": 1:" ++ toString e.ratio ++ " outside 1:1..=1:" ++
    toString maxChildrenPerStaff

namespace Rules

def standard : Rules := ⟨3, 4, 8⟩

/-- Every ratio is one that a configuration may have. -/
def Accepted (rules : Rules) : Prop :=
  ∀ b, 0 < rules.get b ∧ rules.get b ≤ maxChildrenPerStaff

def outOfRange? (rules : Rules) : Option RatioOutOfRange :=
  (Band.all.find? fun b => rules.get b = 0 || maxChildrenPerStaff < rules.get b).map
    fun b => ⟨b, rules.get b⟩

theorem outOfRange?_eq_none_iff (rules : Rules) : rules.outOfRange? = none ↔ rules.Accepted := by
  simp only [outOfRange?, Option.map_eq_none_iff, List.find?_eq_none, Bool.or_eq_true,
    decide_eq_true_eq, not_or, Accepted]
  constructor
  · intro h b
    have := h b (by cases b <;> decide)
    omega
  · intro h b _
    have := h b
    omega

end Rules

/-- How the staff needed for a mixed group is rounded. -/
inductive Policy
  /-- Round up within each band, then add the bands. -/
  | perBand
  /-- Add the fractional needs of the bands, then round up once. -/
  | pooled
deriving DecidableEq, Repr, Inhabited

namespace Policy

def all : List Policy := [perBand, pooled]

def name : Policy → String
  | perBand => "per_band"
  | pooled => "pooled"

def ofName (s : String) : Except UnknownName Policy :=
  match all.find? fun p => p.name = s with
  | some p => .ok p
  | none => .error ⟨"ratio policy", s⟩

end Policy

end NurseryRota
