import Mathlib
import PeerCache.Proofs.Cache.Shard

/-!
# The tail of a shard

A tier takes the tail with the smallest tick for its least recently used entry.  What a shard holds, in which
order and under which ticks, can be read off its history: an insertion or a live hit stamps a slot with a tick
and brings it to the front; a lookup that finds the entry expired brings it there too, under the tick that
it has.

    Follows es s      the keys held are those whose last event in es is not that they leave, the most recent
                      event first, each with the tick of its last stamp
    Overdue es key    the last event of the key is that it was found expired

While ticks rise, the tick of a slot that is not overdue is above those of all behind it (`Follows.sorted`).
So the tail has the smallest tick exactly if no overdue slot has a smaller one (`Follows.oldestTick?_eq_min?`).
An entry that is dropped as soon as it is found expired is never in the way; until then it can be, and the
tail is one that has been used since (`expired_lookup_hides_oldest`).

Main statement: `tail_longest_unused`.
-/

namespace PeerCache

namespace Shard

/-! ## Sequences of operations -/

/-- What can be done with a shard. -/
inductive Op where
  | insert (key : String) (entry : Entry) (tick : Nat)
  | get (key : String) (now : Instant) (tick : Nat)
  | removeExpired (key : String) (now : Instant)
  | peek (key : String)
  | remove (key : String)
  | popOldest

inductive Reply where
  | entry (e : Option Entry)
  | found (l : Lookup)
  | popped (p : Option (String × Entry))
  deriving DecidableEq

def apply (s : Shard) : Op → Shard × Reply
  | .insert key entry tick =>
    let (s, old) := s.insert key entry tick
    (s, .entry old)
  | .get key now tick =>
    let (s, found) := s.get key now tick
    (s, .found found)
  | .removeExpired key now =>
    let (s, e) := s.removeExpired key now
    (s, .entry e)
  | .peek key => (s, .entry (s.peek key))
  | .remove key =>
    let (s, e) := s.remove key
    (s, .entry e)
  | .popOldest =>
    match s.popOldest? with
    | some (x, rest) => (rest, .popped (some (x.key, x.entry)))
    | none => (s, .popped none)

/-- The shard after a sequence of operations, and their replies in order. -/
def run (s : Shard) : List Op → Shard × List Reply
  | [] => (s, [])
  | op :: ops =>
    let (u, r) := s.apply op
    let (v, rs) := u.run ops
    (v, r :: rs)

/-- The tick that an operation is given. -/
def tick? : Op → Option Nat
  | .insert _ _ tick | .get _ _ tick => some tick
  | _ => none

/-- Every operation that is given a tick is given a later one than those before it. -/
def Rising (ops : List Op) : Prop := (ops.filterMap tick?).Pairwise (· < ·)

instance (ops : List Op) : Decidable (Rising ops) := inferInstanceAs (Decidable (List.Pairwise _ _))

/-! ## The history of a shard -/

/-- What happens to an entry. -/
inductive Event where
  /-- It is inserted, or found live. -/
  | stamp (key : String) (tick : Nat)
  /-- It is found expired. -/
  | late (key : String)
  /-- It is removed, dropped as expired, or taken as the oldest. -/
  | leave (key : String)
  deriving DecidableEq

namespace Event

def key : Event → String
  | stamp key _ | late key | leave key => key

/-- The tick that the slot gets. -/
def tick? : Event → Option Nat
  | stamp _ tick => some tick
  | late _ | leave _ => none

end Event

/-- What an operation makes happen, as its reply shows. -/
def event? : Op → Reply → Option Event
  | .insert key _ tick, _ => some (.stamp key tick)
  | .get key _ tick, .found (.hit _) => some (.stamp key tick)
  | .get key _ _, .found .expired => some (.late key)
  | .removeExpired key _, .entry (some _) => some (.leave key)
  | .remove key, .entry (some _) => some (.leave key)
  | .popOldest, .popped (some p) => some (.leave p.1)
  | _, _ => none

/-- All that happens in a sequence of operations, the last event first. -/
def history : List Op → List Reply → List Event
  | op :: ops, r :: rs => history ops rs ++ (event? op r).toList
  | _, _ => []

/-- The last event of a key. -/
def last? (es : List Event) (key : String) : Option Event := es.find? (·.key == key)

/-- How many events ago that was. -/
def ago (es : List Event) (key : String) : Nat := es.findIdx (·.key == key)

/-- The tick of a key's last insertion or live hit. -/
def lastTick? (es : List Event) (key : String) : Option Nat :=
  es.findSome? fun e => if e.key = key then e.tick? else none

/-- Since its last insertion or live hit, the entry under a key has been found expired. -/
def Overdue (es : List Event) (key : String) : Prop := last? es key = some (.late key)

instance (es : List Event) (key : String) : Decidable (Overdue es key) :=
  inferInstanceAs (Decidable (_ = _))

/-- What a shard holds, and in which order, as its history tells it. -/
structure Follows (es : List Event) (s : Shard) : Prop where
  keys : (s.slots.map Slot.key).Nodup
  held : ∀ key, (∃ x ∈ s.slots, x.key = key) ↔ ∃ e, last? es key = some e ∧ e ≠ .leave key
  stamped : ∀ x ∈ s.slots, lastTick? es x.key = some x.tick
  order : s.slots.Pairwise fun a b => ago es a.key < ago es b.key

variable {s r : Shard} {es : List Event} {e : Event} {x : Slot} {key other : String} {t : Nat}

/-! ## One more event -/

theorem last?_cons_self (e : Event) (es : List Event) : last? (e :: es) e.key = some e := by
  rw [last?, List.find?_cons, beq_self_eq_true]

theorem last?_cons_of_ne (h : e.key ≠ key) : last? (e :: es) key = last? es key := by
  rw [last?, List.find?_cons, beq_false_of_ne h]
  rfl

theorem ago_cons_self (e : Event) (es : List Event) : ago (e :: es) e.key = 0 := by
  rw [ago, List.findIdx_cons, beq_self_eq_true]
  rfl

theorem ago_cons_of_ne (h : e.key ≠ key) : ago (e :: es) key = ago es key + 1 := by
  rw [ago, List.findIdx_cons, beq_false_of_ne h]
  rfl

/-- An event stamps its own tick, or leaves the one that is there. -/
theorem lastTick?_cons_self (e : Event) (es : List Event) :
    lastTick? (e :: es) e.key = e.tick?.or (lastTick? es e.key) := by
  rw [lastTick?, List.findSome?_cons, if_pos rfl]
  cases e.tick? <;> rfl

theorem lastTick?_cons_of_ne (h : e.key ≠ key) : lastTick? (e :: es) key = lastTick? es key := by
  rw [lastTick?, List.findSome?_cons, if_neg h]
  rfl

/-! ## The list follows the history -/

/-- An event of one key leaves the slots of all others as they are, in their order. -/
theorem Follows.others (h : Follows es s) (e : Event) :
    (∀ x ∈ s.others e.key, lastTick? (e :: es) x.key = some x.tick) ∧
      (s.others e.key).Pairwise fun a b => ago (e :: es) a.key < ago (e :: es) b.key := by
  have hne : ∀ x ∈ s.others e.key, e.key ≠ x.key := fun x hx => (key_ne_of_mem_others hx).symm
  have hsub := s.others_sublist e.key
  constructor
  · intro x hx
    rw [lastTick?_cons_of_ne (hne x hx)]
    exact h.stamped x (hsub.subset hx)
  · refine (h.order.sublist hsub).imp_of_mem fun {a b} ha hb hlt => ?_
    rw [ago_cons_of_ne (hne a ha), ago_cons_of_ne (hne b hb)]
    exact Nat.succ_lt_succ hlt

/-- What of other keys is held is held still. -/
theorem Follows.held_others (h : Follows es s) (hne : e.key ≠ key) :
    (∃ x ∈ s.others e.key, x.key = key) ↔ ∃ d, last? (e :: es) key = some d ∧ d ≠ .leave key := by
  rw [last?_cons_of_ne hne, ← h.held key]
  constructor
  · rintro ⟨x, hx, hk⟩
    exact ⟨x, (s.others_sublist e.key).subset hx, hk⟩
  · rintro ⟨x, hx, rfl⟩
    exact ⟨x, List.mem_filter.mpr ⟨hx, bne_iff_ne.mpr hne.symm⟩, rfl⟩

/-- What is used comes to the front, under the tick that it is stamped with or has had. -/
theorem Follows.use (h : Follows es s) (hkey : x.key = e.key) (huse : e ≠ .leave e.key)
    (htick : e.tick?.or (lastTick? es e.key) = some x.tick) (hr : r.slots = x :: s.others e.key) :
    Follows (e :: es) r := by
  obtain ⟨hstamped, horder⟩ := h.others e
  constructor
  · rw [hr, ← hkey]
    exact nodup_front h.keys x
  · intro k
    rw [hr, List.exists_mem_cons_iff, hkey]
    by_cases hk : e.key = k
    · subst hk
      exact iff_of_true (.inl rfl) ⟨e, last?_cons_self e es, huse⟩
    · rw [← h.held_others hk]
      exact or_iff_right hk
  · rw [hr]
    refine List.forall_mem_cons.mpr ⟨?_, hstamped⟩
    rw [hkey, lastTick?_cons_self]
    exact htick
  · rw [hr]
    refine List.pairwise_cons.mpr ⟨fun y hy => ?_, horder⟩
    rw [hkey, ago_cons_self, ago_cons_of_ne (key_ne_of_mem_others hy).symm]
    exact Nat.succ_pos _

theorem Follows.congr (h : Follows es s) (hr : r.slots = s.slots) : Follows es r := by
  constructor
  · rw [hr]
    exact h.keys
  · rw [hr]
    exact h.held
  · rw [hr]
    exact h.stamped
  · rw [hr]
    exact h.order

theorem Follows.leave (h : Follows es s) (hr : r.slots = s.others key) : Follows (.leave key :: es) r := by
  obtain ⟨hstamped, horder⟩ := h.others (.leave key)
  constructor
  · rw [hr]
    exact h.keys.sublist ((s.others_sublist key).map _)
  · intro k
    rw [hr]
    by_cases hk : key = k
    · subst hk
      refine iff_of_false ?_ ?_
      · rintro ⟨x, hx, hkey⟩
        exact key_ne_of_mem_others hx hkey
      · rintro ⟨d, hd, hne⟩
        exact hne (Option.some.inj (hd.symm.trans (last?_cons_self (.leave key) es)))
    · exact h.held_others (e := .leave key) hk
  · rw [hr]
    exact hstamped
  · rw [hr]
    exact horder

/-- **All that an operation can do to the list**: nothing, or one slot goes, or one comes to the front. -/
theorem apply_cases (h : (s.slots.map Slot.key).Nodup) (op : Op) :
    (event? op (s.apply op).2 = none ∧ (s.apply op).1.slots = s.slots) ∨
    (∃ key, event? op (s.apply op).2 = some (.leave key) ∧ (s.apply op).1.slots = s.others key) ∨
    (∃ x, event? op (s.apply op).2 = some (.stamp x.key x.tick) ∧
      (s.apply op).1.slots = x :: s.others x.key) ∨
    ∃ x ∈ s.slots, event? op (s.apply op).2 = some (.late x.key) ∧
      (s.apply op).1.slots = x :: s.others x.key := by
  cases op with
  | insert key entry tick => exact .inr (.inr (.inl ⟨⟨key, entry, tick⟩, rfl, insert_slots s key entry tick⟩))
  | get key now tick =>
    have happly : s.apply (.get key now tick) = ((s.get key now tick).1, .found (s.get key now tick).2) := rfl
    rw [happly]
    rcases s.get_cases key now tick with hget | ⟨x, hf, hfound⟩
    · rw [hget]
      exact .inl ⟨rfl, rfl⟩
    · obtain ⟨hx, rfl⟩ := mem_of_find? hf
      rcases hfound with ⟨-, hget⟩ | ⟨-, hget⟩
      · rw [hget]
        exact .inr (.inr (.inr ⟨x, hx, rfl, rfl⟩))
      · rw [hget]
        exact .inr (.inr (.inl ⟨{ x with tick }, rfl, rfl⟩))
  | removeExpired key now =>
    have happly : s.apply (.removeExpired key now) =
      ((s.removeExpired key now).1, .entry (s.removeExpired key now).2) := rfl
    rw [happly]
    rcases s.removeExpired_cases key now with hnone | ⟨r, e, hgone, hslots⟩
    · rw [hnone]
      exact .inl ⟨rfl, rfl⟩
    · rw [hgone]
      exact .inr (.inl ⟨key, rfl, hslots⟩)
  | peek key => exact .inl ⟨rfl, rfl⟩
  | remove key =>
    have happly : s.apply (.remove key) = ((s.remove key).1, .entry (s.remove key).2) := rfl
    rw [happly]
    rcases s.remove_cases key with hnone | ⟨r, e, hgone, hslots⟩
    · rw [hnone]
      exact .inl ⟨rfl, rfl⟩
    · rw [hgone]
      exact .inr (.inl ⟨key, rfl, hslots⟩)
  | popOldest =>
    unfold apply
    cases hp : s.popOldest? with
    | none => exact .inl ⟨rfl, rfl⟩
    | some p => exact .inr (.inl ⟨p.1.key, rfl, others_of_popOldest? h hp⟩)

theorem Follows.apply (h : Follows es s) (op : Op) :
    Follows ((event? op (s.apply op).2).toList ++ es) (s.apply op).1 := by
  rcases apply_cases h.keys op with ⟨he, hs⟩ | ⟨key, he, hs⟩ | ⟨x, he, hs⟩ | ⟨x, hx, he, hs⟩
  · rw [he]
    exact h.congr hs
  · rw [he]
    exact h.leave hs
  · rw [he]
    exact h.use rfl nofun rfl hs
  · rw [he]
    exact h.use rfl nofun (h.stamped x hx) hs

theorem Follows.run (h : Follows es s) (ops : List Op) :
    Follows (history ops (s.run ops).2 ++ es) (s.run ops).1 := by
  induction ops generalizing s es with
  | nil => exact h
  | cons op ops ih =>
    have hrest := ih (h.apply op)
    rw [← List.append_assoc] at hrest
    exact hrest

theorem follows_empty : Follows [] {} := ⟨List.nodup_nil, by simp [last?], nofun, .nil⟩

/-! ## Rising ticks -/

/-- Later events stamp later ticks. -/
def Falling (es : List Event) : Prop := es.Pairwise fun d e => ∀ a ∈ d.tick?, ∀ b ∈ e.tick?, b < a

/-- The ticks that are stamped are some of those that are given, in their order. -/
theorem ticks_sublist (ops : List Op) (rs : List Reply) :
    ((history ops rs).filterMap Event.tick?).reverse.Sublist (ops.filterMap tick?) := by
  induction ops generalizing rs with
  | nil => exact List.Sublist.refl _
  | cons op ops ih =>
    cases rs with
    | nil => exact List.nil_sublist _
    | cons r rs =>
      have hop : ((event? op r).toList.filterMap Event.tick?).reverse.Sublist (tick? op).toList := by
        unfold event? tick?
        split <;> simp [Event.tick?]
      have hcons : (op :: ops).filterMap tick? = (tick? op).toList ++ ops.filterMap tick? := by
        cases ht : tick? op <;> simp [ht]
      rw [hcons, history, List.filterMap_append, List.reverse_append]
      exact hop.append (ih rs)

theorem falling_history {ops : List Op} (h : Rising ops) (rs : List Reply) : Falling (history ops rs) := by
  have hrev := h.sublist (ticks_sublist ops rs)
  rw [List.pairwise_reverse, List.pairwise_filterMap] at hrev
  exact hrev

/-- The last tick of a key is that of one of its events. -/
theorem exists_of_lastTick? (h : lastTick? es key = some t) : ∃ e ∈ es, e.key = key ∧ e.tick? = some t := by
  obtain ⟨e, he, ht⟩ := List.exists_of_findSome?_eq_some h
  split at ht
  · next hk => exact ⟨e, he, hk, ht⟩
  · cases ht

/-- A stamp that is the last event of a key has its last tick. -/
theorem lastTick?_of_last? (h : last? es key = some (.stamp key t)) : lastTick? es key = some t := by
  induction es with
  | nil => cases h
  | cons e es ih =>
    by_cases hkey : e.key = key
    · subst hkey
      rw [last?_cons_self, Option.some.injEq] at h
      rw [lastTick?_cons_self, h]
      rfl
    · rw [last?_cons_of_ne hkey] at h
      rw [lastTick?_cons_of_ne hkey]
      exact ih h

/-- One tick is stamped once. -/
theorem Falling.key_eq (h : Falling es) (hk : lastTick? es key = some t) (ho : lastTick? es other = some t) :
    key = other := by
  obtain ⟨d, hd, rfl, hdt⟩ := exists_of_lastTick? hk
  obtain ⟨e, he, rfl, het⟩ := exists_of_lastTick? ho
  have hdiff : es.Pairwise fun d e => ∀ a ∈ d.tick?, ∀ b ∈ e.tick?, a ≠ b :=
    h.imp fun hlt a ha b hb => Nat.ne_of_gt (hlt a ha b hb)
  have : Std.Symm fun d e : Event => ∀ a ∈ d.tick?, ∀ b ∈ e.tick?, a ≠ b :=
    ⟨fun d e hde a ha b hb => (hde b hb a ha).symm⟩
  by_contra hne
  exact hdiff.forall hd he (fun heq => hne (congrArg Event.key heq)) t hdt t het rfl

/-- If the last event of a key is a stamp, it is later than those of all keys whose last event was before. -/
theorem Falling.tick_lt (h : Falling es) {n : Nat} (hk : last? es key = some (.stamp key t))
    (ho : lastTick? es other = some n) (hago : ago es key < ago es other) : n < t := by
  induction es with
  | nil => cases hk
  | cons e es ih =>
    obtain ⟨hhead, hrest⟩ := List.pairwise_cons.mp h
    -- the newest event is not the other key's, so its tick is further back
    have hother : e.key ≠ other := by
      rintro rfl
      rw [ago_cons_self] at hago
      exact Nat.not_lt_zero _ hago
    rw [lastTick?_cons_of_ne hother] at ho
    by_cases hkey : e.key = key
    · subst hkey
      rw [last?_cons_self, Option.some.injEq] at hk
      obtain ⟨d, hd, -, hdt⟩ := exists_of_lastTick? ho
      exact hhead d hd t (by rw [hk]; rfl) n hdt
    · rw [last?_cons_of_ne hkey] at hk
      rw [ago_cons_of_ne hkey, ago_cons_of_ne hother] at hago
      exact ih hrest hk ho (Nat.lt_of_succ_lt_succ hago)

/-- The last event of a slot that is not overdue is the stamp of its tick. -/
theorem Follows.last_stamp (h : Follows es s) (hx : x ∈ s.slots) (hlive : ¬ Overdue es x.key) :
    last? es x.key = some (.stamp x.key x.tick) := by
  obtain ⟨e, he, hstays⟩ := (h.held x.key).mp ⟨x, hx, rfl⟩
  have hkey : e.key = x.key := by simpa using List.find?_some he
  have htick := h.stamped x hx
  rw [← hkey] at he hstays htick hlive ⊢
  cases e with
  | stamp key tick =>
    cases (lastTick?_of_last? he).symm.trans htick
    exact he
  | late key => exact absurd he hlive
  | leave key => exact absurd rfl hstays

theorem Follows.nodup_ticks (h : Follows es s) (hf : Falling es) : (s.slots.map Slot.tick).Nodup := by
  refine List.pairwise_map.mpr ((List.pairwise_map.mp h.keys).imp_of_mem fun {a b} ha hb hne htick => ?_)
  have hlast := h.stamped b hb
  rw [← htick] at hlast
  exact hne (hf.key_eq (h.stamped a ha) hlast)

/-- A slot that is not overdue has a later tick than all behind it. -/
theorem Follows.sorted (h : Follows es s) (hf : Falling es) :
    s.slots.Pairwise fun a b => ¬ Overdue es a.key → b.tick < a.tick :=
  h.order.imp_of_mem fun ha hb hago hlive => hf.tick_lt (h.last_stamp ha hlive) (h.stamped _ hb) hago

/-! ## The tail -/

theorem oldestTick?_eq_none_iff (s : Shard) : s.oldestTick? = none ↔ s.slots = [] := by
  rw [oldestTick?, Option.map_eq_none_iff, List.getLast?_eq_none_iff]

theorem popOldest?_eq_none_iff (s : Shard) : s.popOldest? = none ↔ s.slots = [] := by
  rw [popOldest?, Option.map_eq_none_iff, List.getLast?_eq_none_iff]

/-- A slot that is taken from a shard, and what is left: its last event is the longest ago, and its tick is
below that of every slot that is not overdue. -/
structure IsTail (es : List Event) (s : Shard) (x : Slot) (r : Shard) : Prop where
  split : s.slots = r.slots ++ [x]
  tick : s.oldestTick? = some x.tick
  /-- Its tick tells it from all others. -/
  rest : r.slots = s.slots.filter (·.tick != x.tick)
  longest : ∀ y ∈ r.slots, ago es y.key < ago es x.key
  below : ∀ y ∈ r.slots, ¬ Overdue es y.key → x.tick < y.tick

theorem Follows.isTail (h : Follows es s) (hf : Falling es) (hp : s.popOldest? = some (x, r)) :
    IsTail es s x r := by
  have hsplit := slots_of_popOldest? hp
  have hticks := h.nodup_ticks hf
  have horder := h.order
  have hsorted := h.sorted hf
  rw [hsplit] at hticks horder hsorted
  have hlast : x ∈ [x] := List.mem_singleton_self x
  refine ⟨hsplit, ?_, ?_, fun y hy => ?_, fun y hy hlive => ?_⟩
  · rw [oldestTick?, hsplit, List.getLast?_concat, Option.map_some]
  · rw [hsplit]
    exact (filter_ne_concat hticks).symm
  · exact horder.rel_of_mem_append hy hlast
  · exact hsorted.rel_of_mem_append hy hlast hlive

/-- **The tail has the smallest tick** exactly if that of no overdue slot is smaller. -/
theorem Follows.oldestTick?_eq_min? (h : Follows es s) (hf : Falling es) :
    s.oldestTick? = (s.slots.map Slot.tick).min? ↔
      ∀ y ∈ s.slots, Overdue es y.key → ∀ t ∈ s.oldestTick?, t ≤ y.tick := by
  cases hp : s.popOldest? with
  | none =>
    have hnil := s.popOldest?_eq_none_iff.mp hp
    rw [s.oldestTick?_eq_none_iff.mpr hnil, hnil]
    exact iff_of_true rfl nofun
  | some p =>
    obtain ⟨x, r⟩ := p
    have htail := h.isTail hf hp
    rw [htail.tick, eq_comm, List.min?_eq_some_iff, htail.split]
    constructor
    · rintro ⟨-, hmin⟩ y hy - t ht
      cases ht
      exact hmin y.tick (List.mem_map_of_mem hy)
    · intro hoverdue
      refine ⟨List.mem_map_of_mem (by simp), fun b hb => ?_⟩
      obtain ⟨y, hy, rfl⟩ := List.mem_map.mp hb
      by_cases hlate : Overdue es y.key
      · exact hoverdue y hy hlate x.tick rfl
      · rcases List.mem_append.mp hy with hy | hy
        · exact Nat.le_of_lt (htail.below y hy hlate)
        · rw [List.mem_singleton.mp hy]

/-! ## A slot that comes to the front -/

/-- A slot that comes to the front changes the tail exactly if it was the tail, behind others. -/
theorem getLast?_front (h : (s.slots.map Slot.key).Nodup) (hx : x ∈ s.slots) :
    (x :: s.others x.key).getLast? ≠ s.slots.getLast? ↔ s.slots.getLast? = some x ∧ 1 < s.slots.length := by
  obtain ⟨newer, z, hsplit⟩ := (List.eq_nil_or_concat' s.slots).resolve_left (List.ne_nil_of_mem hx)
  have hlast : s.slots.getLast? = some z := by rw [hsplit, List.getLast?_concat]
  have hnodup := h
  rw [hsplit] at hnodup
  rw [hlast]
  by_cases hzx : z = x
  · subst hzx
    rw [others_tail h hsplit, hsplit]
    rcases List.eq_nil_or_concat' newer with rfl | ⟨front, y, rfl⟩
    · simp
    · have hyz : y ≠ z := by
        rintro rfl
        simp [List.nodup_append] at hnodup
      rw [← List.cons_append, List.getLast?_concat]
      simp [hyz]
  · have hkey : z.key ≠ x.key := fun hk =>
      hzx (List.inj_on_of_nodup_map h (by rw [hsplit]; simp) hx hk)
    have hothers : s.others x.key = newer.filter (·.key != x.key) ++ [z] := by
      unfold others
      rw [hsplit, List.filter_append]
      simp [hkey]
    rw [hothers, ← List.cons_append, List.getLast?_concat]
    simp [hzx]

/-- **The slot at the tail is the one that has not been used for longest**, where a lookup that finds an
entry expired uses it as well.  After any operations with rising ticks on an empty shard, it holds what its
history says, every slot under the tick of the last insertion or live hit of its key, so that no two ticks are
the same.  There is no oldest tick exactly if there is no slot; else it is that of the tail, and taking the
oldest takes the slot with this tick and leaves all others.  Its tick is below those of all that have not
been found expired since they were stamped, and it is the smallest of all exactly if it is at most those of
the others too.  A lookup that finds an entry expired brings its slot to the front, so which slot is the oldest
changes exactly if it was this one, behind others.  When the entry is dropped at once, all others are as
they were. -/
theorem tail_longest_unused (ops : List Op) (hrising : Rising ops) :
    let p := run {} ops
    let s := p.1
    let es := history ops p.2
    Follows es s ∧ (s.slots.map Slot.tick).Nodup ∧
    (s.oldestTick? = none ↔ s.slots = []) ∧ (s.popOldest? = none ↔ s.slots = []) ∧
    (∀ x r, s.popOldest? = some (x, r) → IsTail es s x r) ∧
    (s.oldestTick? = (s.slots.map Slot.tick).min? ↔
      ∀ y ∈ s.slots, Overdue es y.key → ∀ t ∈ s.oldestTick?, t ≤ y.tick) ∧
    ∀ key now tick, (s.get key now tick).2 = .expired →
      let r := (s.get key now tick).1
      ∃ x ∈ s.slots, x.key = key ∧ r.slots = x :: s.others key ∧
        (r.slots.getLast? ≠ s.slots.getLast? ↔ s.slots.getLast? = some x ∧ 1 < s.slots.length) ∧
        (r.removeExpired key now).1.slots = s.others key := by
  intro p s es
  have hfollows : Follows es s := by
    have hrun := follows_empty.run ops
    rw [List.append_nil] at hrun
    exact hrun
  have hfalling : Falling es := falling_history hrising p.2
  refine ⟨hfollows, hfollows.nodup_ticks hfalling, s.oldestTick?_eq_none_iff, s.popOldest?_eq_none_iff,
    fun x r hp => hfollows.isTail hfalling hp, hfollows.oldestTick?_eq_min? hfalling, ?_⟩
  intro key now tick hexpired r
  obtain ⟨x, hf, hlate, hr⟩ := get_expired hexpired
  obtain ⟨hx, rfl⟩ := mem_of_find? hf
  replace hr : r = { s with slots := x :: s.others x.key } := hr
  rw [hr]
  refine ⟨x, hx, rfl, rfl, getLast?_front hfollows.keys hx, ?_⟩
  rw [s.removeExpired_front hlate]
  rfl

/-- An entry is found expired, and then the other one is used: the tick of the overdue one is the smallest and
at the tail. -/
theorem tail_longest_unused_overdue :
    let ops : List Op :=
      [.insert "a" ⟨⟨#[1]⟩, some ⟨5⟩⟩ 1, .insert "b" ⟨⟨#[2]⟩, none⟩ 2, .get "a" ⟨5⟩ 3, .get "b" ⟨5⟩ 4]
    let p := run {} ops
    Rising ops ∧ Overdue (history ops p.2) "a" ∧ p.1.oldestTick? = some 1 ∧
      p.1.oldestTick? = (p.1.slots.map Slot.tick).min? := by
  intro ops p
  have hrising : Rising ops := by decide
  have hoverdue : Overdue (history ops p.2) "a" := by decide
  have htick : p.1.oldestTick? = some 1 := by decide
  obtain ⟨-, -, -, -, -, hmin, -⟩ := tail_longest_unused ops hrising
  refine ⟨hrising, hoverdue, htick, hmin.mpr ?_⟩
  decide

/-- **A lookup that finds the oldest entry expired hides it.**  The entry of a has the smallest tick and has
expired; a lookup finds this out, and until the entry is dropped the tail is that of b, which is taken in
its place. -/
theorem expired_lookup_hides_oldest :
    let before : List Op := [.insert "a" ⟨⟨#[1]⟩, some ⟨5⟩⟩ 1, .insert "b" ⟨⟨#[2]⟩, none⟩ 2]
    let ops := before ++ [.get "a" ⟨5⟩ 3, .insert "c" ⟨⟨#[3]⟩, none⟩ 4]
    let s := (run {} ops).1
    Rising ops ∧ (run {} before).1.oldestTick? = some 1 ∧
      s.oldestTick? = some 2 ∧ (s.slots.map Slot.tick).min? = some 1 ∧
      ((s.apply .popOldest).2 = .popped (some ("b", ⟨⟨#[2]⟩, none⟩))) ∧
      ((s.apply .popOldest).1.apply (.removeExpired "a" ⟨5⟩)).2 = .entry (some ⟨⟨#[1]⟩, some ⟨5⟩⟩) := by
  decide

end Shard

end PeerCache
