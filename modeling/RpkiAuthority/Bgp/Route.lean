import RpkiAuthority.Resource.Text

/-!
# Announced routes

A route is announced by an AS number for a prefix. The route collectors also tell how many of their
peers see it.
-/

namespace RpkiAuthority

/-- An AS number and the prefix it announces. -/
structure AnnouncedRoute where
  asn : Asn
  pfx : Prefix
  deriving DecidableEq

namespace AnnouncedRoute

/-- Routes are ordered by prefix, then by AS number. -/
def sortKey (r : AnnouncedRoute) : List Nat := r.pfx.sortKey ++ [r.asn.toNat]

theorem eq_of_sortKey_eq {r t : AnnouncedRoute} (h : r.sortKey = t.sortKey) : r = t := by
  cases r with | mk a p =>
  cases t with | mk b q =>
  cases a; cases b
  simp only [sortKey] at h
  have := List.append_inj h rfl
  have hp := Prefix.eq_of_sortKey_eq this.1
  simp_all

instance : Ord AnnouncedRoute := ⟨compareOn sortKey⟩

instance : Std.TransOrd AnnouncedRoute := inferInstanceAs (Std.TransCmp (compareOn sortKey))

instance : Std.LawfulEqOrd AnnouncedRoute := lawfulEqCmp_compareOn fun _ _ => eq_of_sortKey_eq

theorem compare_eq (r t : AnnouncedRoute) :
    compare r t = (compare r.pfx t.pfx).then (compare r.asn.toNat t.asn.toNat) := by
  rw [Prefix.compare_eq]
  show List.compareLex compare r.sortKey t.sortKey = _
  simp only [sortKey, Prefix.sortKey, List.cons_append, List.nil_append, List.compareLex_cons_cons,
    List.compareLex_nil_nil, Ordering.then_eq, Ordering.then_assoc]

/-- The written form. -/
def text (r : AnnouncedRoute) : String :=
  "[asn=" ++ r.asn.text ++ ", prefix=" ++ r.pfx.text ++ "]"

/-- Routes in order, repetitions kept. -/
def sorted (l : List AnnouncedRoute) : List AnnouncedRoute :=
  l.mergeSort fun r t => (compare r t).isLE

end AnnouncedRoute

/-- A route as the collectors see it. -/
structure RisEntry where
  origin : Asn
  pfx : Prefix
  /-- The number of peers that see the route. -/
  visibility : Nat
  visibility_le : visibility ≤ Text.max32
  deriving DecidableEq

namespace RisEntry

/-- The entry of a visibility that fits 32 bits. -/
def make? (origin : Asn) (pfx : Prefix) (visibility : Nat) : Option RisEntry :=
  if h : visibility ≤ Text.max32 then some ⟨origin, pfx, visibility, h⟩ else none

/-- The announced route. -/
def route (e : RisEntry) : AnnouncedRoute := ⟨e.origin, e.pfx⟩

/-- Entries are ordered by prefix, then by AS number, then by visibility. -/
def sortKey (e : RisEntry) : List Nat := e.pfx.sortKey ++ [e.origin.toNat, e.visibility]

theorem eq_of_sortKey_eq {d e : RisEntry} (h : d.sortKey = e.sortKey) : d = e := by
  cases d with | mk a p _ _ =>
  cases e with | mk b q _ _ =>
  cases a; cases b
  simp only [sortKey] at h
  have := List.append_inj h rfl
  have hp := Prefix.eq_of_sortKey_eq this.1
  simp_all

instance : Ord RisEntry := ⟨compareOn sortKey⟩

instance : Std.TransOrd RisEntry := inferInstanceAs (Std.TransCmp (compareOn sortKey))

instance : Std.LawfulEqOrd RisEntry := lawfulEqCmp_compareOn fun _ _ => eq_of_sortKey_eq

/-- The written form. -/
def text (e : RisEntry) : String :=
  e.pfx.text ++ " => " ++ e.origin.text ++ " (" ++ e.visibility.repr ++ ")"

end RisEntry

end RpkiAuthority
