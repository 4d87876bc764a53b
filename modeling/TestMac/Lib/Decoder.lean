import TestMac.Lib.Bytes

/-!
# Decoders that can be watched

A decoder walks through a memory it does not change. What it does is recorded:
the intervals it reads and the calls it makes. It ends with a result, at a
failed assertion, or not within the rounds allowed to its loops.

Two kinds of facts are proved about decoders. `Safe` bounds the reads whatever
the outcome; `Returns` states the outcome and the calls exactly.
-/

open Bytes

/-- What can be seen of a decoder. -/
inductive Obs (E : Type)
  /-- The bytes from the address on were read. -/
  | read (addr len : ℕ)
  | call (e : E)

/-- How a decoder ends. -/
inductive Outcome (α : Type)
  | ok (a : α)
  | assertFailed
  /-- A loop was still running when its rounds were used up. -/
  | running
  deriving DecidableEq

/-- The decoder came to its end with a result. -/
def Outcome.returned {α : Type} : Outcome α → Bool
  | .ok _ => true
  | .assertFailed => false
  | .running => false

/-- A decoder with calls of type `E` and results of type `α`. -/
def Decoder (E α : Type) := Mem → List (Obs E) × Outcome α

namespace Decoder

variable {E F α β σ : Type}

instance : Monad (Decoder E) where
  pure a := fun _ => ([], .ok a)
  bind x f := fun m =>
    match x m with
    | (es, .ok a) => (es ++ (f a m).1, (f a m).2)
    | (es, .assertFailed) => (es, .assertFailed)
    | (es, .running) => (es, .running)

/-- Reading a little-endian number of `len` bytes. -/
def read (len addr : ℕ) : Decoder E ℕ := fun m =>
  ([.read addr len], .ok (leValue (slice m addr len)))

/-- Calling a handler that returns. -/
def call (e : E) : Decoder E Unit := fun _ => ([.call e], .ok ())

/-- The same decoder with its calls renamed, as a part of a larger one. -/
def lift {E' : Type} (g : E → E') (x : Decoder E α) : Decoder E' α := fun m =>
  ((x m).1.map fun
    | .read addr len => .read addr len
    | .call e => .call (g e), (x m).2)

/-- A run-time assertion. -/
def assert (p : Prop) [Decidable p] : Decoder E Unit := fun _ =>
  ([], if p then .ok () else .assertFailed)

/-- The loop `for (i = 0; i < n; i++)` of a 16-bit counter, for at most as many
rounds as `fuel` says. -/
def loop16 (n : ℕ) (body : ℕ → σ → Decoder E σ) : ℕ → ℕ → σ → Decoder E σ
  | 0, _, _ => fun _ => ([], .running)
  | fuel + 1, i, s =>
    if i < n then body i s >>= fun s' => loop16 n body fuel ((i + 1) % 65536) s'
    else pure s

/-- The calls a decoder makes on a memory. -/
def calls (x : Decoder E α) (m : Mem) : List E :=
  (x m).1.filterMap fun
    | .read _ _ => none
    | .call e => some e

/-- Every interval read satisfies `P`, and a result satisfies `Q`. -/
def Safe (P : ℕ → ℕ → Prop) (m : Mem) (x : Decoder E α) (Q : α → Prop) : Prop :=
  (∀ addr len, .read addr len ∈ (x m).1 → P addr len) ∧ ∀ a, (x m).2 = .ok a → Q a

/-- The decoder returns `a`, and `es` is what its calls show to `view`. -/
def Returns (view : E → Option F) (m : Mem) (x : Decoder E α) (es : List F) (a : α) : Prop :=
  (x m).2 = .ok a ∧ (x.calls m).filterMap view = es

/-- The calls of two decoders in sequence: the second one runs when the first returns. -/
theorem calls_bind (x : Decoder E α) (f : α → Decoder E β) (m : Mem) :
    (x >>= f).calls m = x.calls m ++ match (x m).2 with
      | .ok a => (f a).calls m
      | _ => [] := by
  unfold calls
  simp only [Bind.bind]
  match x m with
  | (es, .ok a) => exact List.filterMap_append
  | (es, .assertFailed) => simp
  | (es, .running) => simp

@[simp]
theorem calls_pure (a : α) (m : Mem) : (pure a : Decoder E α).calls m = [] := rfl

@[simp]
theorem calls_read (len addr : ℕ) (m : Mem) : (read len addr : Decoder E ℕ).calls m = [] := rfl

@[simp]
theorem calls_call (e : E) (m : Mem) : (call e).calls m = [e] := rfl

@[simp]
theorem result_read (len addr : ℕ) (m : Mem) :
    ((read len addr : Decoder E ℕ) m).2 = .ok (leValue (slice m addr len)) := rfl

@[simp]
theorem result_call (e : E) (m : Mem) : (call e m).2 = .ok () := rfl

@[simp]
theorem calls_assert (p : Prop) [Decidable p] (m : Mem) :
    (assert p : Decoder E Unit).calls m = [] := rfl

@[simp]
theorem result_assert (p : Prop) [Decidable p] (m : Mem) :
    ((assert p : Decoder E Unit) m).2 = if p then .ok () else .assertFailed := rfl

@[simp]
theorem result_lift {E' : Type} (g : E → E') (x : Decoder E α) (m : Mem) :
    (x.lift g m).2 = (x m).2 := rfl

@[simp]
theorem calls_lift {E' : Type} (g : E → E') (x : Decoder E α) (m : Mem) :
    (x.lift g).calls m = (x.calls m).map g := by
  simp only [calls, Decoder.lift, List.filterMap_map, List.map_filterMap]
  congr 1
  funext o
  cases o <;> rfl

/-- The calls of a sequence whose second part makes none. -/
theorem calls_bind_silent {x : Decoder E α} {f : α → Decoder E β} {m : Mem}
    (hf : ∀ a, (f a).calls m = []) : (x >>= f).calls m = x.calls m := by
  rw [calls_bind]
  cases (x m).2 with
  | ok a => simp [hf]
  | assertFailed => simp
  | running => simp

/-- When a sequence comes to its end, both parts do. -/
theorem returned_bind {x : Decoder E α} {f : α → Decoder E β} {m : Mem}
    (h : ((x >>= f) m).2.returned = true) :
    (x m).2.returned = true ∧ ∃ a, (x m).2 = .ok a ∧ ((f a) m).2.returned = true := by
  simp only [Bind.bind] at h
  match hx : x m with
  | (es, .ok a) =>
    rw [hx] at h
    exact ⟨rfl, a, rfl, h⟩
  | (es, .assertFailed) => simp [hx, Outcome.returned] at h
  | (es, .running) => simp [hx, Outcome.returned] at h

section Safe

variable {P : ℕ → ℕ → Prop} {m : Mem} {Q : α → Prop} {R : β → Prop}

theorem Safe.pure {a : α} (h : Q a) : Safe P m (pure a : Decoder E α) Q := by
  refine ⟨fun _ _ hmem => absurd hmem (List.not_mem_nil), fun b hb => ?_⟩
  obtain rfl := Outcome.ok.inj hb
  exact h

theorem Safe.bind {x : Decoder E α} {f : α → Decoder E β} (hx : Safe P m x Q)
    (hf : ∀ a, Q a → Safe P m (f a) R) : Safe P m (x >>= f) R := by
  obtain ⟨hreads, hres⟩ := hx
  unfold Safe
  simp only [Bind.bind]
  match hxm : x m with
  | (es, .ok a) =>
    rw [hxm] at hreads hres
    obtain ⟨hreads', hres'⟩ := hf a (hres a rfl)
    refine ⟨fun addr len hmem => ?_, hres'⟩
    rcases List.mem_append.mp hmem with h | h
    · exact hreads addr len h
    · exact hreads' addr len h
  | (es, .assertFailed) =>
    rw [hxm] at hreads
    exact ⟨hreads, fun _ h => by simp at h⟩
  | (es, .running) =>
    rw [hxm] at hreads
    exact ⟨hreads, fun _ h => by simp at h⟩

theorem Safe.mono {x : Decoder E α} {Q' : α → Prop} (hx : Safe P m x Q) (h : ∀ a, Q a → Q' a) :
    Safe P m x Q' :=
  ⟨hx.1, fun a ha => h a (hx.2 a ha)⟩

/-- Without a bound on the reads there is nothing to prove. -/
theorem Safe.unbounded (x : Decoder E α) : Safe (fun _ _ => True) m x (fun _ => True) :=
  ⟨fun _ _ _ => trivial, fun _ _ => trivial⟩

theorem Safe.read {len addr : ℕ} (h : P addr len) :
    Safe P m (read len addr : Decoder E ℕ) (· = leValue (slice m addr len)) := by
  refine ⟨fun addr' len' hmem => ?_, fun a ha => ?_⟩
  · obtain ⟨rfl, rfl⟩ := Obs.read.inj (List.mem_singleton.mp hmem)
    exact h
  · exact (Outcome.ok.inj ha).symm

theorem Safe.call (e : E) : Safe P m (call e) (fun _ => True) :=
  ⟨fun _ _ hmem => by simp [Decoder.call] at hmem, fun _ _ => trivial⟩

theorem Safe.lift {E' : Type} {g : E → E'} {x : Decoder E α} (hx : Safe P m x Q) :
    Safe P m (x.lift g) Q := by
  refine ⟨fun addr len hmem => ?_, hx.2⟩
  obtain ⟨o, ho, heq⟩ := List.mem_map.mp hmem
  cases o with
  | read addr' len' =>
    obtain ⟨rfl, rfl⟩ := Obs.read.inj heq
    exact hx.1 _ _ ho
  | call e => simp at heq

theorem Safe.assert (p : Prop) [Decidable p] :
    Safe P m (assert p : Decoder E Unit) (fun _ => p) := by
  refine ⟨fun _ _ hmem => by simp [Decoder.assert] at hmem, fun _ h => ?_⟩
  by_contra hp
  simp [Decoder.assert, hp] at h

/-- A loop whose counter does not wrap, with an invariant of the rounds done. -/
theorem Safe.loop16 {n fuel i : ℕ} {body : ℕ → σ → Decoder E σ} {s : σ} (Inv : ℕ → σ → Prop)
    (hn : n < 65536) (hbody : ∀ i s, i < n → Inv i s → Safe P m (body i s) (Inv (i + 1)))
    (hi : i ≤ n) (hs : Inv i s) : Safe P m (loop16 n body fuel i s) (Inv n) := by
  induction fuel generalizing i s with
  | zero => exact ⟨fun _ _ hmem => absurd hmem List.not_mem_nil,
      fun _ h => by simp [Decoder.loop16] at h⟩
  | succ fuel ih =>
    rw [Decoder.loop16]
    by_cases hin : i < n
    · rw [if_pos hin, Nat.mod_eq_of_lt (by omega)]
      exact (hbody i s hin hs).bind fun s' hs' => ih (by omega) hs'
    · obtain rfl : i = n := by omega
      rw [if_neg hin]
      exact .pure hs

end Safe

section Returns

variable {view : E → Option F} {m : Mem} {es es' : List F}

theorem Returns.pure (a : α) : Returns view m (pure a : Decoder E α) [] a := ⟨rfl, rfl⟩

/-- Behind a decoder that returns, a sequence returns when its second part does. -/
theorem Returns.bind_iff {x : Decoder E α} {f : α → Decoder E β} {a : α} {b : β}
    (hx : Returns view m x es a) :
    Returns view m (x >>= f) es' b ↔
      ∃ es'', es' = es ++ es'' ∧ Returns view m (f a) es'' b := by
  obtain ⟨hout, hcalls⟩ := hx
  have hres : ((x >>= f) m).2 = (f a m).2 := by
    simp only [Bind.bind]
    match hxm : x m with
    | (obs, .ok a') =>
      rw [hxm] at hout
      obtain rfl := Outcome.ok.inj hout
      rfl
    | (obs, .assertFailed) => simp [hxm] at hout
    | (obs, .running) => simp [hxm] at hout
  have hshown : ((x >>= f).calls m).filterMap view = es ++ ((f a).calls m).filterMap view := by
    rw [calls_bind, hout, List.filterMap_append, hcalls]
  unfold Returns
  rw [hres, hshown]
  constructor
  · rintro ⟨hb, rfl⟩
    exact ⟨_, rfl, hb, rfl⟩
  · rintro ⟨es'', rfl, hb, rfl⟩
    exact ⟨hb, rfl⟩

theorem Returns.bind {x : Decoder E α} {f : α → Decoder E β} {a : α} {b : β}
    (hx : Returns view m x es a) (hf : Returns view m (f a) es' b) :
    Returns view m (x >>= f) (es ++ es') b :=
  hx.bind_iff.mpr ⟨es', rfl, hf⟩

theorem Returns.silent_iff {x : Decoder E α} {f : α → Decoder E β} {a : α} {b : β}
    (hx : Returns view m x [] a) :
    Returns view m (x >>= f) es b ↔ Returns view m (f a) es b := by
  rw [hx.bind_iff]
  simp

/-- When a sequence returns, both parts do. -/
theorem Returns.bind_inv {x : Decoder E α} {f : α → Decoder E β} {b : β}
    (h : Returns view m (x >>= f) es b) : ∃ es₁ a es₂, es = es₁ ++ es₂ ∧
      Returns view m x es₁ a ∧ Returns view m (f a) es₂ b := by
  have hout := h.1
  simp only [Bind.bind] at hout
  match hxm : x m with
  | (obs, .ok a) =>
    have hx : Returns view m x ((x.calls m).filterMap view) a := ⟨by rw [hxm], rfl⟩
    obtain ⟨es₂, hes, hf⟩ := hx.bind_iff.mp h
    exact ⟨_, a, es₂, hes, hx, hf⟩
  | (obs, .assertFailed) => simp [hxm] at hout
  | (obs, .running) => simp [hxm] at hout

/-- A first part that shows nothing. -/
theorem Returns.silent {x : Decoder E α} {f : α → Decoder E β} {a : α} {b : β}
    (hx : Returns view m x [] a) (hf : Returns view m (f a) es b) : Returns view m (x >>= f) es b :=
  hx.bind hf

/-- A first part that shows one thing. -/
theorem Returns.shows {x : Decoder E α} {f : α → Decoder E β} {a : α} {b : β} {e : F}
    (hx : Returns view m x [e] a) (hf : Returns view m (f a) es b) :
    Returns view m (x >>= f) (e :: es) b :=
  hx.bind hf

theorem Returns.read (len addr : ℕ) :
    Returns view m (read len addr : Decoder E ℕ) [] (leValue (slice m addr len)) := ⟨rfl, rfl⟩

theorem Returns.call (e : E) : Returns view m (call e) (view e).toList () :=
  ⟨rfl, by simp [List.filterMap_cons, Option.toList]; cases view e <;> rfl⟩

/-- A part of a larger decoder whose calls are not shown. -/
theorem Returns.lift_unseen {E' : Type} {g : E → E'} {view' : E' → Option F}
    {x : Decoder E α} {a : α}
    (hview : ∀ e, view' (g e) = none) (h : (x m).2 = .ok a) : Returns view' m (x.lift g) [] a :=
  ⟨h, by simp [List.filterMap_map, hview]⟩

theorem Returns.assert {p : Prop} [Decidable p] (h : p) :
    Returns view m (assert p : Decoder E Unit) [] () := by
  simp [Returns, h]

/-- A loop whose counter has reached its bound. -/
theorem Returns.loop16_done {n fuel i : ℕ} {body : ℕ → σ → Decoder E σ} {s : σ} (h : n ≤ i) :
    Returns view m (loop16 n body (fuel + 1) i s) [] s := by
  rw [Decoder.loop16, if_neg (by omega)]
  exact .pure s

/-- One round of a loop whose counter does not wrap. -/
theorem loop16_step {n fuel i : ℕ} {body : ℕ → σ → Decoder E σ} {s : σ} (hi : i < n)
    (hn : n < 65536) :
    loop16 n body (fuel + 1) i s = body i s >>= fun s' => loop16 n body fuel (i + 1) s' := by
  rw [Decoder.loop16, if_pos hi, Nat.mod_eq_of_lt (by omega)]

end Returns

/-- `es` is what the calls of the decoder show to `view`, whatever the outcome, and a
result satisfies `Q`. -/
def Shows (view : E → Option F) (m : Mem) (x : Decoder E α) (es : List F) (Q : α → Prop) : Prop :=
  (x.calls m).filterMap view = es ∧ ∀ a, (x m).2 = .ok a → Q a

section Shows

variable {view : E → Option F} {m : Mem} {es es' : List F} {Q : α → Prop} {R : β → Prop}

theorem result_bind (x : Decoder E α) (f : α → Decoder E β) (m : Mem) :
    ((x >>= f) m).2 = match (x m).2 with
      | .ok a => (f a m).2
      | .assertFailed => .assertFailed
      | .running => .running := by
  simp only [Bind.bind]
  match x m with
  | (es, .ok a) => rfl
  | (es, .assertFailed) => rfl
  | (es, .running) => rfl

theorem Returns.toShows {x : Decoder E α} {a : α} (h : Returns view m x es a) (hQ : Q a) :
    Shows view m x es Q := by
  refine ⟨h.2, ?_⟩
  intro b hb
  obtain rfl := Outcome.ok.inj (h.1.symm.trans hb)
  exact hQ

theorem Shows.mono {x : Decoder E α} {Q' : α → Prop} (h : Shows view m x es Q)
    (himp : ∀ a, Q a → Q' a) : Shows view m x es Q' :=
  ⟨h.1, fun a ha => himp a (h.2 a ha)⟩

/-- Behind a part that returns the rest is shown as well. -/
theorem Returns.then_shows {x : Decoder E α} {f : α → Decoder E β} {a : α}
    (hx : Returns view m x es a)
    (hf : Shows view m (f a) es' R) : Shows view m (x >>= f) (es ++ es') R := by
  constructor
  · rw [calls_bind, List.filterMap_append, hx.1, hx.2, hf.1]
  · intro b hb
    rw [result_bind, hx.1] at hb
    exact hf.2 b hb

/-- A first part that shows nothing. -/
theorem Returns.silent_then {x : Decoder E α} {f : α → Decoder E β} {a : α}
    (hx : Returns view m x [] a) (hf : Shows view m (f a) es R) : Shows view m (x >>= f) es R :=
  hx.then_shows hf

/-- A first part that shows one thing. -/
theorem Returns.shows_then {x : Decoder E α} {f : α → Decoder E β} {a : α} {e : F}
    (hx : Returns view m x [e] a) (hf : Shows view m (f a) es R) :
    Shows view m (x >>= f) (e :: es) R :=
  hx.then_shows hf

/-- A rest that shows nothing may be reached or not. -/
theorem Shows.then_silent {x : Decoder E α} {f : α → Decoder E β} (hx : Shows view m x es Q)
    (hf : ∀ a, Q a → Shows view m (f a) [] R) : Shows view m (x >>= f) es R := by
  constructor
  · rw [calls_bind, List.filterMap_append, hx.1]
    match hout : (x m).2 with
    | .ok a => simp [(hf a (hx.2 a hout)).1]
    | .assertFailed => simp
    | .running => simp
  · intro b hb
    rw [result_bind] at hb
    match hout : (x m).2 with
    | .ok a =>
      rw [hout] at hb
      exact (hf a (hx.2 a hout)).2 b hb
    | .assertFailed => simp [hout] at hb
    | .running => simp [hout] at hb

theorem Shows.assert (p : Prop) [Decidable p] :
    Shows view m (assert p : Decoder E Unit) [] fun _ => p := by
  refine ⟨rfl, ?_⟩
  intro _ h
  by_contra hp
  simp [Decoder.assert, hp] at h

/-- Behind an assertion something is shown only if it holds. -/
theorem Shows.assert_then {p : Prop} [Decidable p] {f : Unit → Decoder E β}
    (h : p → Shows view m (f ()) es R) :
    Shows view m (Decoder.assert p >>= f) (if p then es else []) R := by
  by_cases hp : p
  · rw [if_pos hp]
    exact (Returns.assert hp).silent_then (h hp)
  · rw [if_neg hp]
    refine (Shows.assert p).then_silent ?_
    intro _ hholds
    exact absurd hholds hp

end Shows

/-- A property of decoders that a sequence has when its parts have it, and that is had by
what reads and asserts. -/
structure Closed (Φ : ∀ {α : Type}, Decoder E α → Prop) : Prop where
  pure : ∀ {α : Type} (a : α), Φ (pure a : Decoder E α)
  read : ∀ len addr : ℕ, Φ (read len addr : Decoder E ℕ)
  assert : ∀ (p : Prop) [Decidable p], Φ (assert p : Decoder E Unit)
  bind : ∀ {α β : Type} {x : Decoder E α} {f : α → Decoder E β}, Φ x → (∀ a, Φ (f a)) →
    Φ (x >>= f)

section Closed

variable {Φ : ∀ {α : Type}, Decoder E α → Prop}

theorem Closed.ite (_ : Closed Φ) {p : Prop} [Decidable p] {x y : Decoder E α} (hx : Φ x)
    (hy : Φ y) : Φ (if p then x else y) := by
  split_ifs
  · exact hx
  · exact hy

/-- A loop may also run out. -/
theorem Closed.loop16 (hΦ : Closed Φ) (hrunning : Φ ((fun _ => ([], .running)) : Decoder E σ))
    {n fuel i : ℕ} {body : ℕ → σ → Decoder E σ} {s : σ} (hbody : ∀ i s, Φ (body i s)) :
    Φ (loop16 n body fuel i s) := by
  induction fuel generalizing i s with
  | zero => exact hrunning
  | succ fuel ih =>
    rw [Decoder.loop16]
    exact hΦ.ite (hΦ.bind (hbody i s) fun _ => ih) (hΦ.pure s)

end Closed

/-- Every call that the decoder makes satisfies `C`, whatever the outcome. -/
def Only (C : E → Prop) (m : Mem) (x : Decoder E α) : Prop := ∀ e ∈ x.calls m, C e

section Only

variable {C : E → Prop} {m : Mem}

theorem Only.pure (a : α) : Only C m (pure a : Decoder E α) := by simp [Only]

theorem Only.read (len addr : ℕ) : Only C m (read len addr : Decoder E ℕ) := by simp [Only]

theorem Only.assert (p : Prop) [Decidable p] : Only C m (assert p : Decoder E Unit) := by
  simp [Only]

theorem Only.running : Only C m ((fun _ => ([], .running)) : Decoder E α) := by simp [Only, calls]

theorem Only.call {e : E} (h : C e) : Only C m (call e) := by simpa [Only] using h

theorem Only.bind {x : Decoder E α} {f : α → Decoder E β} (hx : Only C m x)
    (hf : ∀ a, Only C m (f a)) : Only C m (x >>= f) := by
  intro e he
  rw [calls_bind, List.mem_append] at he
  rcases he with he | he
  · exact hx e he
  · cases hout : (x m).2 with
    | ok a =>
      rw [hout] at he
      exact hf a e he
    | assertFailed => simp [hout] at he
    | running => simp [hout] at he

/-- A part that goes on from what was read. -/
theorem Only.read_then {len addr : ℕ} {f : ℕ → Decoder E α}
    (hf : Only C m (f (leValue (slice m addr len)))) : Only C m (Decoder.read len addr >>= f) := by
  intro e he
  rw [calls_bind, calls_read, result_read, List.nil_append] at he
  exact hf e he

theorem Only.mono {C' : E → Prop} {x : Decoder E α} (hx : Only C m x) (h : ∀ e, C e → C' e) :
    Only C' m x :=
  fun e he => h e (hx e he)

theorem Only.closed : Closed fun {α : Type} (x : Decoder E α) => Only C m x where
  pure := Only.pure
  read := Only.read
  assert := Only.assert
  bind := Only.bind

theorem Only.ite {p : Prop} [Decidable p] {x y : Decoder E α} (hx : Only C m x)
    (hy : Only C m y) : Only C m (if p then x else y) :=
  Only.closed.ite hx hy

theorem Only.loop16 {n fuel i : ℕ} {body : ℕ → σ → Decoder E σ} {s : σ}
    (hbody : ∀ i s, Only C m (body i s)) : Only C m (loop16 n body fuel i s) :=
  Only.closed.loop16 Only.running hbody

end Only

/-- When the decoder comes to its end, it has made as many calls of one kind as of another. -/
def Balanced (p q : E → Bool) (m : Mem) (x : Decoder E α) : Prop :=
  (x m).2.returned = true → (x.calls m).countP p = (x.calls m).countP q

section Balanced

variable {p q : E → Bool} {m : Mem}

/-- Calls that are of both kinds or of neither. -/
theorem Only.balanced {x : Decoder E α} (h : Only (fun e => p e = q e) m x) : Balanced p q m x :=
  fun _ => List.countP_congr fun e he => by rw [h e he]

theorem Balanced.bind {x : Decoder E α} {f : α → Decoder E β} (hx : Balanced p q m x)
    (hf : ∀ a, Balanced p q m (f a)) : Balanced p q m (x >>= f) := by
  intro hret
  obtain ⟨hret₁, a, ha, hret₂⟩ := returned_bind hret
  rw [calls_bind, ha, List.countP_append, List.countP_append, hx hret₁, hf a hret₂]

theorem Balanced.closed : Closed fun {α : Type} (x : Decoder E α) => Balanced p q m x where
  pure a := (Only.pure a).balanced
  read len addr := (Only.read len addr).balanced
  assert p := (Only.assert p).balanced
  bind := Balanced.bind

end Balanced

/-- A decoder that comes to its end has made calls that show the same in two ways. -/
def Mirrored {β : Type} (f g : E → Option β) (m : Mem) (x : Decoder E α) : Prop :=
  (x m).2.returned = true → (x.calls m).filterMap f = (x.calls m).filterMap g

section Mirrored

variable {γ : Type} {f g : E → Option γ} {m : Mem}

/-- Calls that show the same by themselves. -/
theorem Only.mirrored {x : Decoder E α} (h : Only (fun e => f e = g e) m x) : Mirrored f g m x :=
  fun _ => List.filterMap_congr fun e he => h e he

theorem Mirrored.bind {x : Decoder E α} {k : α → Decoder E β} (hx : Mirrored f g m x)
    (hk : ∀ a, Mirrored f g m (k a)) : Mirrored f g m (x >>= k) := by
  intro hret
  obtain ⟨hret₁, a, ha, hret₂⟩ := returned_bind hret
  rw [calls_bind, ha, List.filterMap_append, List.filterMap_append, hx hret₁, hk a hret₂]

theorem Mirrored.closed : Closed fun {α : Type} (x : Decoder E α) => Mirrored f g m x where
  pure a := (Only.pure a).mirrored
  read len addr := (Only.read len addr).mirrored
  assert p := (Only.assert p).mirrored
  bind := Mirrored.bind

end Mirrored

/-- What a pointer leads to, if it leads to anything. -/
def deref (o : Option α) : Decoder E α := fun _ =>
  ([], match o with
    | some a => .ok a
    | none => .assertFailed)

/-- A recursion is still running when its depth is used up. -/
def outOfFuel : Decoder E α := fun _ => ([], .running)

/-- The same thing done for every element of a list. -/
def each (body : α → Decoder E Unit) : List α → Decoder E Unit
  | [] => pure ()
  | a :: as => do
    body a
    each body as

/-- The string at an address, up to its zero. -/
def readStr : ℕ → ℕ → Decoder E (List UInt8)
  | 0, _ => outOfFuel
  | fuel + 1, addr => do
    let c ← read 1 addr
    if c = 0 then pure []
    else do
      let rest ← readStr fuel (addr + 1)
      pure (UInt8.ofNat c :: rest)

/-- From some depth on the decoder ends, and always in the same way. When `sound` holds no
assertion fails. -/
def Settles (sound : Prop) (m : Mem) (x : ℕ → Decoder E α) : Prop :=
  ∃ n r, r.2 ≠ .running ∧ (sound → r.2 ≠ .assertFailed) ∧ ∀ fuel, n ≤ fuel → x fuel m = r

section Settles

variable {sound : Prop} {m : Mem} {x : ℕ → Decoder E α}

theorem Settles.of_ends {x : Decoder E α} (hends : (x m).2 ≠ .running)
    (hsound : sound → (x m).2 ≠ .assertFailed) : Settles sound m fun _ => x :=
  ⟨0, x m, hends, hsound, fun _ _ => rfl⟩

theorem Settles.of_ok {x : Decoder E α} {a : α} (h : (x m).2 = .ok a) :
    Settles sound m fun _ => x :=
  .of_ends (by simp [h]) (by simp [h])

theorem Settles.pure (a : α) : Settles sound m fun _ => (Pure.pure a : Decoder E α) := .of_ok rfl

theorem Settles.read (len addr : ℕ) :
    Settles sound m fun _ => (Decoder.read len addr : Decoder E ℕ) := .of_ok rfl

theorem Settles.call (e : E) : Settles sound m fun _ => Decoder.call e := .of_ok rfl

theorem Settles.assert {p : Prop} [Decidable p] (h : sound → p) :
    Settles sound m fun _ => (Decoder.assert p : Decoder E Unit) := by
  apply Settles.of_ends
  · rw [result_assert]
    split_ifs <;> simp
  · intro hsound
    simp [h hsound]

theorem Settles.deref {o : Option α} (h : sound → o.isSome = true) :
    Settles sound m fun _ => (Decoder.deref o : Decoder E α) := by
  cases o with
  | none => exact .of_ends (by simp [Decoder.deref]) fun hsound => by simpa using h hsound
  | some a => exact .of_ok rfl

/-- A recursion may go one level down. -/
theorem Settles.succ (h : Settles sound m fun fuel => x (fuel + 1)) : Settles sound m x := by
  obtain ⟨n, r, hends, hsound, heq⟩ := h
  refine ⟨n + 1, r, hends, hsound, fun fuel hfuel => ?_⟩
  obtain ⟨k, rfl⟩ := Nat.exists_eq_add_of_le' (Nat.one_le_of_lt hfuel)
  exact heq k (by omega)

theorem Settles.bind_of {f : ℕ → α → Decoder E β} (hx : Settles sound m x)
    (hf : ∀ a, (∃ n, ∀ fuel, n ≤ fuel → (x fuel m).2 = .ok a) →
      Settles sound m fun fuel => f fuel a) :
    Settles sound m fun fuel => x fuel >>= f fuel := by
  obtain ⟨n, ⟨es, out⟩, hends, hsound, heq⟩ := hx
  cases out with
  | ok a =>
    obtain ⟨n', r, hends', hsound', heq'⟩ := hf a ⟨n, fun fuel hfuel => by rw [heq fuel hfuel]⟩
    refine ⟨max n n', (es ++ r.1, r.2), hends', hsound', fun fuel hfuel => ?_⟩
    simp only [Bind.bind, heq fuel (by omega), heq' fuel (by omega)]
  | assertFailed =>
    refine ⟨n, (es, .assertFailed), by simp, fun hs => absurd rfl (hsound hs),
      fun fuel hfuel => ?_⟩
    simp only [Bind.bind, heq fuel hfuel]
  | running => exact absurd rfl hends

theorem Settles.bind {f : ℕ → α → Decoder E β} (hx : Settles sound m x)
    (hf : ∀ a, Settles sound m fun fuel => f fuel a) :
    Settles sound m fun fuel => x fuel >>= f fuel :=
  hx.bind_of fun a _ => hf a

theorem Settles.read_then {len addr : ℕ} {f : ℕ → ℕ → Decoder E α}
    (hf : ∀ v, Settles sound m fun fuel => f fuel v) :
    Settles sound m fun fuel => Decoder.read len addr >>= f fuel :=
  (Settles.read len addr).bind hf

/-- Going on from what a pointer leads to. -/
theorem Settles.deref_then {o : Option α} {f : ℕ → α → Decoder E β} (h : sound → o.isSome = true)
    (hf : ∀ a, o = some a → Settles sound m fun fuel => f fuel a) :
    Settles sound m fun fuel => Decoder.deref o >>= f fuel := by
  refine (Settles.deref h).bind_of fun a ⟨n, ha⟩ => hf a ?_
  have ha := ha n le_rfl
  cases o with
  | none => simp [Decoder.deref] at ha
  | some a' => exact congrArg some (Outcome.ok.inj ha)

theorem Settles.ite {p : Prop} [Decidable p] {y : ℕ → Decoder E α} (hx : Settles sound m x)
    (hy : Settles sound m y) : Settles sound m fun fuel => if p then x fuel else y fuel := by
  by_cases hp : p
  · simpa only [if_pos hp] using hx
  · simpa only [if_neg hp] using hy

theorem Settles.each {body : ℕ → β → Decoder E Unit} {as : List β}
    (h : ∀ a ∈ as, Settles sound m fun fuel => body fuel a) :
    Settles sound m fun fuel => Decoder.each (body fuel) as := by
  induction as with
  | nil => exact Settles.pure ()
  | cons a as ih =>
    exact (h a List.mem_cons_self).bind fun _ => ih fun a' ha' => h a' (List.mem_cons_of_mem a ha')

/-- A string that is terminated. -/
theorem Settles.readStr {addr : ℕ} (h : ∃ k, m (addr + k) = 0) :
    Settles sound m fun fuel => (Decoder.readStr fuel addr : Decoder E (List UInt8)) := by
  obtain ⟨k, hk⟩ := h
  induction k generalizing addr with
  | zero =>
    refine Settles.succ (Settles.bind_of (Settles.read 1 addr) fun c ⟨n, hc⟩ => ?_)
    obtain rfl := Outcome.ok.inj (hc n le_rfl)
    have hzero : leValue (slice m addr 1) = 0 := by
      simp only [Nat.add_zero] at hk
      simp [slice, leValue, hk]
    simp only [hzero, if_pos]
    exact Settles.pure []
  | succ k ih =>
    refine Settles.succ (Settles.read_then fun c => Settles.ite (Settles.pure []) ?_)
    exact (ih (by rwa [Nat.add_assoc, Nat.add_comm 1 k])).bind fun _ => Settles.pure _

end Settles

/-- A part that goes on from a result that is known. -/
theorem Only.bind_of {C : E → Prop} {m : Mem} {x : Decoder E α} {f : α → Decoder E β}
    (hx : Only C m x) (hf : ∀ a, (x m).2 = .ok a → Only C m (f a)) : Only C m (x >>= f) := by
  intro e he
  rw [calls_bind, List.mem_append] at he
  rcases he with he | he
  · exact hx e he
  · cases hout : (x m).2 with
    | ok a =>
      rw [hout] at he
      exact hf a hout e he
    | assertFailed => simp [hout] at he
    | running => simp [hout] at he

/-- Reading a string calls nothing. -/
theorem Only.readStr {C : E → Prop} {m : Mem} (fuel addr : ℕ) :
    Only C m (Decoder.readStr fuel addr : Decoder E (List UInt8)) := by
  induction fuel generalizing addr with
  | zero => exact Only.running
  | succ fuel ih =>
    exact Only.bind (Only.read 1 addr) fun _ => Only.ite (Only.pure _)
      (Only.bind (ih _) fun _ => Only.pure _)

/-- No byte of a string is zero. -/
theorem readStr_noZero {m : Mem} {fuel addr : ℕ} {s : List UInt8}
    (h : ((Decoder.readStr fuel addr : Decoder E (List UInt8)) m).2 = .ok s) : 0 ∉ s := by
  induction fuel generalizing addr s with
  | zero => exact nomatch h
  | succ fuel ih =>
    rw [Decoder.readStr, result_bind, result_read] at h
    dsimp only at h
    split_ifs at h with hc
    · obtain rfl := Outcome.ok.inj h
      exact List.not_mem_nil
    · rw [result_bind] at h
      cases hrest : ((Decoder.readStr fuel (addr + 1) : Decoder E (List UInt8)) m).2 with
      | ok rest =>
        rw [hrest] at h
        obtain rfl := Outcome.ok.inj h
        have hbyte : UInt8.ofNat (leValue (slice m addr 1)) ≠ 0 := by
          have hlt := leValue_lt (slice m addr 1)
          rw [slice_length] at hlt
          intro heq
          have hnat := congrArg UInt8.toNat heq
          simp at hnat
          omega
        rw [List.mem_cons, not_or]
        exact ⟨hbyte.symm, ih hrest⟩
      | assertFailed => rw [hrest] at h; exact nomatch h
      | running => rw [hrest] at h; exact nomatch h

end Decoder
