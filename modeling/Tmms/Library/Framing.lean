import Mathlib.Algebra.Ring.Int.Defs
import Mathlib.Algebra.Ring.Nat
import Mathlib.Data.List.Basic
import Tmms.Library.Loop

/-!
# Streams of elements read in pieces

A stream is a list of elements.  Some are only of use when they are there as a whole, like a
line; the others can be taken as they come, like the bytes of a body.  Each gives outputs when
its last symbol is taken.

A reader gets the stream in pieces and works at what it has while that is more than one
symbol.  `consume` says what it takes of `n` symbols and how many it leaves, as a function of
the elements and of `n` alone; it has no answer when two or more symbols of a whole element
are there and the rest is not, for then there is nothing to take and no reason to stop.

`Follows turn view bound Sim` says that the turns of a loop take the elements one by one, as
long as no more than `bound` symbols are there.  Then the loop ends for all the pieces for
which `consumeAll` has an answer, and gives the outputs of what was taken (`Follows.reads`).
`Alarms` says that otherwise the loop does not end without an output that is not one of the
stream.  Then the answer of `consumeAll` decides (`Follows.reads_iff`).

`Accounts` says what outputs cost: every turn pays for its outputs with the symbols it takes and
with a credit of its state.  So the symbols that were read are as many as the outputs cost, however
they were cut into pieces (`Accounts.reads`).
-/

universe u v w x y

/-- An element of a stream, with its outputs. -/
structure Element (α : Type u) (β : Type v) where
  whole : Bool
  symbols : List α
  out : List β

namespace Framing

variable {α : Type u} {β : Type v} {γ : Type w} {ε : Type x} {σ : Type y}

/-- The symbols of a stream. -/
def symbolsOf (es : List (Element α β)) : List α := es.flatMap Element.symbols

/-- The outputs of a stream. -/
def outOf (es : List (Element α β)) : List β := es.flatMap Element.out

/-- What a reader does with the first `n` symbols of a stream: the elements left, how many
symbols it leaves unread, and the outputs. -/
def consume : List (Element α β) → Nat → Option (List (Element α β) × Nat × List β)
  | [], n => if n ≤ 1 then some ([], n, []) else none
  | e :: es, n =>
    if n ≤ 1 then
      some (e :: es, n, [])
    else if e.symbols.length ≤ n then
      (consume es (n - e.symbols.length)).map fun r => (r.1, r.2.1, e.out ++ r.2.2)
    else if e.whole then
      none
    else
      some ({ e with symbols := e.symbols.drop n } :: es, 0, [])

/-- What a reader does with successive pieces, given their lengths. -/
def consumeAll : List (Element α β) → Nat → List Nat → Option (List (Element α β) × Nat × List β)
  | es, u, [] => some (es, u, [])
  | es, u, n :: ns =>
    match consume es (u + n) with
    | none => none
    | some (es', u', out) => (consumeAll es' u' ns).map fun r => (r.1, r.2.1, out ++ r.2.2)

/-- Successive pieces, each put behind what was unread and followed by a loop. -/
inductive Reads (turn : σ × List α → Turn (σ × List α) γ ε) :
    σ × List α → List (List α) → σ × List α → List γ → Prop where
  | nil (c : σ × List α) : Reads turn c [] c []
  | cons {c c' d : σ × List α} {b : List α} {bs : List (List α)} {out outs : List γ}
      (h : Loop.Ends turn (c.1, c.2 ++ b) c' out) (rest : Reads turn c' bs d outs) :
      Reads turn c (b :: bs) d (out ++ outs)

/-- The turns of a loop take the elements of a stream, and give their outputs as `view` shows
them. A turn takes the first element, or the part of it that is there. -/
structure Follows (turn : σ × List α → Turn (σ × List α) γ ε) (view : γ → β) (bound : Nat)
    (Sim : List (Element α β) → σ → Prop) : Prop where
  stops : ∀ {s b}, b.length ≤ 1 → turn (s, b) = .leave
  takes : ∀ {e es s c}, Sim (e :: es) s → 1 < (e.symbols ++ c).length →
    (e.symbols ++ c).length ≤ bound → ∃ s' out,
      turn (s, e.symbols ++ c) = .next (s', c) out ∧ out.map view = e.out ∧ Sim es s'
  takesPart : ∀ {e es s b c}, Sim (e :: es) s → e.whole = false → e.symbols = b ++ c →
    1 < b.length → b.length ≤ bound → c ≠ [] →
    ∃ s', turn (s, b) = .next (s', []) [] ∧ Sim ({ e with symbols := c } :: es) s'

/-- Elements have symbols, and where only a part of a whole element is there the loop does not
end without an alarm. -/
structure Alarms (turn : σ × List α → Turn (σ × List α) γ ε) (view : γ → β) (bound : Nat)
    (alarm : β) (Sim : List (Element α β) → σ → Prop) : Prop where
  ne_nil : ∀ {e es s}, Sim (e :: es) s → e.symbols ≠ []
  alarms : ∀ {e es s b c t outs}, Sim (e :: es) s → e.whole = true → e.symbols = b ++ c →
    1 < b.length → b.length ≤ bound → c ≠ [] → Loop.Ends turn (s, b) t outs →
    alarm ∈ outs.map view

theorem symbolsOf_cons (e : Element α β) (es : List (Element α β)) :
  symbolsOf (e :: es) = e.symbols ++ symbolsOf es
  := rfl

theorem outOf_cons (e : Element α β) (es : List (Element α β)) :
  outOf (e :: es) = e.out ++ outOf es
  := rfl

/-! ### What is consumed -/

theorem le_of_append {a b : List α} {n : Nat} (h : (a ++ b).length ≤ n) :
  b.length ≤ n
  := by
  rw [List.length_append] at h
  omega

theorem not_le_of_append {a b c : List α} (h : a = b ++ c) (hne : c ≠ []) :
  ¬ a.length ≤ b.length
  := by
  have hpos := List.length_pos_of_ne_nil hne
  rw [h, List.length_append]
  omega

/-- Symbols in front of more of a stream are the symbols of its first element and more, or a part
of these. -/
theorem append_eq_symbolsOf_cons {e : Element α β} {es : List (Element α β)} {b later : List α}
    (hb : b ++ later = symbolsOf (e :: es)) :
  (∃ c, b = e.symbols ++ c ∧ c ++ later = symbolsOf es) ∨
    ∃ c, e.symbols = b ++ c ∧ c ≠ [] ∧ later = c ++ symbolsOf es
  := by
  rw [symbolsOf_cons] at hb
  obtain ⟨c, hb', hc⟩ | ⟨c, he, hc⟩ := List.append_eq_append_iff.mp hb
  · cases c with
    | nil =>
        left
        use [], by simpa using hb'.symm
        simpa using hc
    | cons x c =>
        right
        exact ⟨_, hb', List.cons_ne_nil _ _, hc⟩
  · left
    use c, he, hc.symm

/-- The outputs given and the outputs left are those of the stream. -/
theorem out_consume {es es' : List (Element α β)} {n u : Nat} {out : List β}
    (h : consume es n = some (es', u, out)) :
  out ++ outOf es' = outOf es
  := by
  induction es generalizing n es' u out with
  | nil =>
      rw [consume] at h
      split at h
      · cases h
        rfl
      · cases h
  | cons e es ih =>
      rw [consume] at h
      split_ifs at h
      · cases h
        rfl
      · obtain ⟨⟨es'', u', out'⟩, hr, heq⟩ := Option.map_eq_some_iff.mp h
        cases heq
        have hout := ih hr
        rw [outOf_cons, ← hout, List.append_assoc]
      · cases h
        rfl

/-- At most one symbol is left unread. -/
theorem unread_consume {es es' : List (Element α β)} {n u : Nat} {out : List β}
    (h : consume es n = some (es', u, out)) :
  u ≤ 1
  := by
  induction es generalizing n es' u out with
  | nil =>
      rw [consume] at h
      split at h
      next hn =>
        cases h
        apply hn
      next => cases h
  | cons e es ih =>
      rw [consume] at h
      split_ifs at h with hn
      · cases h
        apply hn
      · obtain ⟨⟨es'', u', out'⟩, hr, heq⟩ := Option.map_eq_some_iff.mp h
        cases heq
        apply ih hr
      · cases h
        apply Nat.zero_le

/-- The outputs of successive pieces and the outputs left are those of the stream. -/
theorem out_consumeAll {es es' : List (Element α β)} {u u' : Nat} {ns : List Nat}
    {out : List β} (h : consumeAll es u ns = some (es', u', out)) :
  out ++ outOf es' = outOf es
  := by
  induction ns generalizing es u out with
  | nil =>
      cases h
      rfl
  | cons n ns ih =>
      rw [consumeAll] at h
      cases hc : consume es (u + n) with
      | none =>
          rw [hc] at h
          cases h
      | some r =>
          obtain ⟨es'', u'', out'⟩ := r
          rw [hc] at h
          obtain ⟨⟨_, _, out''⟩, hr, heq⟩ := Option.map_eq_some_iff.mp h
          cases heq
          rw [← out_consume hc, ← ih hr, List.append_assoc]

/-! ### A loop that follows a stream -/

section Follows

variable {turn : σ × List α → Turn (σ × List α) γ ε} {view : γ → β} {bound : Nat}
  {Sim : List (Element α β) → σ → Prop}

/-- The loop ends for a piece for which there is an answer, with what it says. -/
theorem Follows.ends (hf : Follows turn view bound Sim) {es es' : List (Element α β)} {s : σ}
    {b later : List α} {u : Nat} {out : List β} (hs : Sim es s) (hbound : b.length ≤ bound)
    (hb : b ++ later = symbolsOf es) (h : consume es b.length = some (es', u, out)) :
  ∃ s' b' outs, Loop.Ends turn (s, b) (s', b') outs ∧ b'.length = u ∧ outs.map view = out ∧
    Sim es' s' ∧ b' ++ later = symbolsOf es'
  := by
  induction es generalizing s b es' u out with
  | nil =>
      rw [consume] at h
      split at h
      next hn =>
        cases h
        use s, b, [], .leave (hf.stops hn), rfl, rfl, hs
      next => cases h
  | cons e es ih =>
      rw [consume] at h
      split_ifs at h with hn hfits hwhole
      · cases h
        use s, b, [], .leave (hf.stops hn), rfl, rfl, hs
      · obtain ⟨c, rfl, hc⟩ | ⟨c, he, hne, -⟩ := append_eq_symbolsOf_cons hb
        · obtain ⟨s', out', hturn, hout, hs'⟩ := hf.takes (c := c) hs (by omega) hbound
          obtain ⟨⟨es'', u', out''⟩, hr, heq⟩ := Option.map_eq_some_iff.mp h
          cases heq
          rw [List.length_append, Nat.add_sub_cancel_left] at hr
          obtain ⟨s'', b'', outs, hends, hu, houts, hs'', hb''⟩ :=
            ih hs' (le_of_append hbound) hc hr
          use s'', b'', out' ++ outs, .next hturn hends, hu
          rw [List.map_append, hout, houts]
          use rfl, hs''
        · exfalso
          apply not_le_of_append he hne hfits
      · cases h
        obtain ⟨c, rfl, hc⟩ | ⟨c, he, hne, hc⟩ := append_eq_symbolsOf_cons hb
        · exfalso
          apply hfits
          rw [List.length_append]
          apply Nat.le_add_right
        · obtain ⟨s', hturn, hs'⟩ :=
            hf.takesPart hs (by simpa using hwhole) he (by omega) hbound hne
          use s', [], [], .next hturn (.leave (hf.stops (Nat.zero_le _))), rfl, rfl
          rw [he, List.drop_left]
          use hs', hc

/-- The loops end for all the pieces of a stream, with the outputs of what was taken. -/
theorem Follows.readsAll (hf : Follows turn view bound Sim) {es es' : List (Element α β)} {s : σ}
    {b : List α} {bs : List (List α)} {u : Nat} {out : List β} (hs : Sim es s)
    (hunread : b.length ≤ 1) (hbound : ∀ piece ∈ bs, piece.length < bound)
    (hb : b ++ bs.flatten = symbolsOf es)
    (h : consumeAll es b.length (bs.map List.length) = some (es', u, out)) :
  ∃ s' b' outs, Reads turn (s, b) bs (s', b') outs ∧ b'.length = u ∧ outs.map view = out
  := by
  induction bs generalizing es s b out with
  | nil =>
      cases h
      exact ⟨s, b, [], .nil _, rfl, rfl⟩
  | cons piece bs ih =>
      rw [List.map_cons, consumeAll] at h
      cases hc : consume es (b.length + piece.length) with
      | none =>
          rw [hc] at h
          cases h
      | some r =>
          obtain ⟨es'', u', out'⟩ := r
          rw [hc] at h
          obtain ⟨⟨_, _, out''⟩, hr, heq⟩ := Option.map_eq_some_iff.mp h
          cases heq
          rw [← List.length_append] at hc
          rw [List.flatten_cons, ← List.append_assoc] at hb
          have hpiece := hbound piece (List.mem_cons_self ..)
          have hlen : (b ++ piece).length ≤ bound
            := by
            rw [List.length_append]
            omega
          obtain ⟨s', b', outs, hends, rfl, houts, hs', hb'⟩ := hf.ends hs hlen hb hc
          obtain ⟨s'', b'', outs', hreads, hu, houts'⟩ := ih hs' (unread_consume hc)
            (fun piece' h' => hbound piece' (List.mem_cons_of_mem _ h')) hb' hr
          use s'', b'', outs ++ outs', .cons hends hreads, hu
          rw [List.map_append, houts, houts']

/-- When all of a stream is taken, its outputs are given, and nothing is left unread. -/
theorem Follows.reads (hf : Follows turn view bound Sim) {es : List (Element α β)} {s : σ}
    {bs : List (List α)} {out : List β} (hs : Sim es s)
    (hbound : ∀ piece ∈ bs, piece.length < bound) (hb : bs.flatten = symbolsOf es)
    (h : consumeAll es 0 (bs.map List.length) = some ([], 0, out)) :
  ∃ s' outs, Reads turn (s, []) bs (s', []) outs ∧ outs.map view = outOf es
  := by
  obtain ⟨s', b', outs, hreads, hb', houts⟩ := hf.readsAll (b := []) hs (Nat.zero_le _) hbound hb h
  obtain rfl := List.eq_nil_of_length_eq_zero hb'
  have hout := out_consumeAll h
  rw [outOf, List.flatMap_nil, List.append_nil] at hout
  use s', outs, hreads
  rw [houts, hout]

/-- A loop that ends without an alarm consumes what is there. -/
theorem Follows.consumes (hf : Follows turn view bound Sim) {alarm : β}
    (ha : Alarms turn view bound alarm Sim) {es : List (Element α β)} {s : σ}
    {b later : List α} {t : σ × List α} {outs : List γ} (hs : Sim es s)
    (hbound : b.length ≤ bound) (hb : b ++ later = symbolsOf es)
    (h : Loop.Ends turn (s, b) t outs) (halarm : alarm ∉ outs.map view) :
  ∃ r, consume es b.length = some r
  := by
  induction es generalizing s b outs with
  | nil =>
      obtain ⟨rfl, -⟩ := List.append_eq_nil_iff.mp hb
      exact ⟨_, rfl⟩
  | cons e es ih =>
      by_cases hn : b.length ≤ 1
      · rw [consume, if_pos hn]
        exact ⟨_, rfl⟩
      · obtain ⟨c, rfl, hc⟩ | ⟨c, he, hne, -⟩ := append_eq_symbolsOf_cons hb
        · obtain ⟨s', out, hturn, hout, hs'⟩ := hf.takes (c := c) hs (by omega) hbound
          have hfits : e.symbols.length ≤ (e.symbols ++ c).length
            := by
            rw [List.length_append]
            apply Nat.le_add_right
          cases h with
          | leave hleave => cases hleave.symm.trans hturn
          | next hnext rest =>
              cases hnext.symm.trans hturn
              rw [List.map_append, List.mem_append, not_or] at halarm
              obtain ⟨r, hr⟩ := ih hs' (le_of_append hbound) hc rest halarm.2
              rw [consume, if_neg hn, if_pos hfits, List.length_append, Nat.add_sub_cancel_left,
                hr]
              exact ⟨_, rfl⟩
        · cases hwhole : e.whole with
          | true =>
              exfalso
              apply halarm
              apply ha.alarms hs hwhole he (by omega) hbound hne h
          | false =>
              rw [consume, if_neg hn, if_neg (not_le_of_append he hne), hwhole,
                if_neg Bool.false_ne_true]
              exact ⟨_, rfl⟩

/-- Loops that end without an alarm consume what is there, and give the outputs of that. -/
theorem Follows.consumesAll (hf : Follows turn view bound Sim) {alarm : β}
    (ha : Alarms turn view bound alarm Sim) {es : List (Element α β)} {s s' : σ}
    {b b' : List α} {bs : List (List α)} {outs : List γ} (hs : Sim es s)
    (hunread : b.length ≤ 1) (hbound : ∀ piece ∈ bs, piece.length < bound)
    (hb : b ++ bs.flatten = symbolsOf es) (h : Reads turn (s, b) bs (s', b') outs)
    (halarm : alarm ∉ outs.map view) :
  ∃ es', consumeAll es b.length (bs.map List.length) = some (es', b'.length, outs.map view) ∧
    Sim es' s' ∧ b' = symbolsOf es'
  := by
  induction bs generalizing es s b outs with
  | nil =>
      cases h
      rw [List.flatten_nil, List.append_nil] at hb
      exact ⟨es, rfl, hs, hb⟩
  | cons piece bs ih =>
      cases h with
      | @cons _ c' _ _ _ out outs hends rest =>
          rw [List.map_append, List.mem_append, not_or] at halarm
          rw [List.flatten_cons, ← List.append_assoc] at hb
          have hpiece := hbound piece (List.mem_cons_self ..)
          have hlen : (b ++ piece).length ≤ bound
            := by
            rw [List.length_append]
            omega
          obtain ⟨⟨es'', u', out'⟩, hr⟩ := hf.consumes ha hs hlen hb hends halarm.1
          obtain ⟨s'', b'', outs', hends', rfl, rfl, hs'', hb''⟩ := hf.ends hs hlen hb hr
          obtain ⟨rfl, rfl⟩ := hends.unique hends'
          obtain ⟨es', hrest, hs', hb'⟩ := ih hs'' (unread_consume hr)
            (fun piece' h' => hbound piece' (List.mem_cons_of_mem _ h')) hb'' rest halarm.2
          refine ⟨es', ?_, hs', hb'⟩
          rw [List.length_append] at hr
          rw [List.map_cons, consumeAll, hr]
          dsimp only
          rw [hrest, List.map_append]
          rfl

/-- The loops give the outputs of a stream and leave nothing exactly when all of it is taken. -/
theorem Follows.reads_iff (hf : Follows turn view bound Sim) {alarm : β}
    (ha : Alarms turn view bound alarm Sim) {es : List (Element α β)} {s : σ}
    {bs : List (List α)} (hs : Sim es s) (hbound : ∀ piece ∈ bs, piece.length < bound)
    (hb : bs.flatten = symbolsOf es) (halarm : alarm ∉ outOf es) :
  (∃ s' outs, Reads turn (s, []) bs (s', []) outs ∧ outs.map view = outOf es) ↔
    ∃ out, consumeAll es 0 (bs.map List.length) = some ([], 0, out)
  := by
  constructor
  · rintro ⟨s', outs, h, houts⟩
    rw [← houts] at halarm
    obtain ⟨es', hconsume, hs', hb'⟩ :=
      hf.consumesAll ha (b := []) hs (Nat.zero_le _) hbound hb h halarm
    cases es' with
    | nil => exact ⟨_, hconsume⟩
    | cons e es' =>
        rw [symbolsOf_cons, eq_comm, List.append_eq_nil_iff] at hb'
        exfalso
        apply ha.ne_nil hs' hb'.1
  · rintro ⟨out, h⟩
    apply hf.reads hs hbound hb h

end Follows

/-! ### Accounts -/

/-- Every turn pays for its outputs with the symbols it takes and with the credit of the state. -/
structure Accounts (turn : σ × List α → Turn (σ × List α) γ ε) (credit : σ → Nat)
    (cost : γ → Nat) (I : σ → Prop) : Prop where
  pays : ∀ {s s' b b' out}, I s → turn (s, b) = .next (s', b') out →
    I s' ∧ credit s' + b'.length + (out.map cost).sum ≤ credit s + b.length

variable {turn : σ × List α → Turn (σ × List α) γ ε} {credit : σ → Nat} {cost : γ → Nat}
  {I : σ → Prop}

theorem Accounts.ends (ha : Accounts turn credit cost I) {c d : σ × List α} {outs : List γ}
    (hc : I c.1) (h : Loop.Ends turn c d outs) :
  I d.1 ∧ credit d.1 + d.2.length + (outs.map cost).sum ≤ credit c.1 + c.2.length
  := by
  induction h with
  | leave hleave => exact ⟨hc, Nat.le_refl _⟩
  | next hnext _ ih =>
      obtain ⟨hc', hle⟩ := ha.pays hc hnext
      obtain ⟨hd, hle'⟩ := ih hc'
      refine ⟨hd, ?_⟩
      rw [List.map_append, List.sum_append]
      omega

/-- The symbols that were read pay for all outputs. -/
theorem Accounts.reads (ha : Accounts turn credit cost I) {c d : σ × List α}
    {bs : List (List α)} {outs : List γ} (hc : I c.1) (h : Reads turn c bs d outs) :
  credit d.1 + d.2.length + (outs.map cost).sum ≤ credit c.1 + c.2.length + bs.flatten.length
  := by
  induction h with
  | nil c => exact Nat.le_refl _
  | @cons c c' d b bs out outs hends _ ih =>
      have hpays : I c'.1 ∧ credit c'.1 + c'.2.length + (out.map cost).sum ≤
          credit c.1 + (c.2 ++ b).length
        := ha.ends (c := (c.1, c.2 ++ b)) hc hends
      obtain ⟨hc', hle⟩ := hpays
      have hle' := ih hc'
      rw [List.length_append] at hle
      rw [List.map_append, List.sum_append, List.flatten_cons, List.length_append]
      omega

end Framing
