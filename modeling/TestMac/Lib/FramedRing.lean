import TestMac.Lib.Paths
import Mathlib.Data.Nat.Basic
import Mathlib.Tactic.Common

/-!
# Messages framed inside a circular buffer

A buffer of `n` cells holds messages one after the other. A message never
straddles the end of the buffer: when it does not fit there, a marker says that
the remaining cells are unused and the message is found at index zero.

Positions count cells from the beginning of time and never wrap; position `a`
denotes the cell `a % n`. The cells of a window shorter than `n` are distinct,
so a queue survives every write made beyond its end and within one lap of its
beginning.
-/

/-- How a message and the marker of an unused tail are represented in the cells
of a buffer, together with the fact that only their own cells matter. -/
structure Framing (C α : Type*) where
  /-- The message lies at the index and occupies the number of cells. -/
  Here : (ℕ → C) → ℕ → α → ℕ → Prop
  /-- The cells from the index to the end of the buffer are unused. -/
  Skip : (ℕ → C) → ℕ → Prop
  here_pos : ∀ {c p m len}, Here c p m len → 0 < len
  here_len : ∀ {c p m len len'}, Here c p m len → Here c p m len' → len = len'
  here_congr : ∀ {c c' p m len}, (∀ i, p ≤ i → i < p + len → c i = c' i) →
    Here c p m len → Here c' p m len
  skip_congr : ∀ {c c' p}, c p = c' p → Skip c p → Skip c' p

namespace Framing

variable {C α : Type*} (F : Framing C α) (n : ℕ)

/-- The first position of the next lap around the buffer. -/
def nextLap (a : ℕ) : ℕ := (a / n + 1) * n

/-- A message read at position `a`, whose cells start at index `p` and which
ends at position `b`. -/
inductive FrameAt (c : ℕ → C) : ℕ → ℕ → α → ℕ → Prop
  | here {a len : ℕ} {m : α} : F.Here c (a % n) m len → a % n + len ≤ n →
      FrameAt c a (a % n) m (a + len)
  | skip {a len : ℕ} {m : α} : F.Skip c (a % n) → F.Here c 0 m len → len ≤ n →
      FrameAt c a 0 m (nextLap n a + len)

/-- A message between two positions, wherever its cells start. -/
def Frame (c : ℕ → C) (a : ℕ) (m : α) (b : ℕ) : Prop := ∃ p, F.FrameAt n c a p m b

/-- The messages `q` lie in order between two positions. -/
abbrev Queue (c : ℕ → C) (a : ℕ) (q : List α) (b : ℕ) : Prop := Steps (F.Frame n c) a q b

/-- Messages between two positions, each with the index of its first cell. -/
abbrev Placed (c : ℕ → C) (a : ℕ) (xs : List (ℕ × α)) (b : ℕ) : Prop :=
  Steps (fun a x b => F.FrameAt n c a x.1 x.2 b) a xs b

/-- The two buffers differ at most in the cells of the positions from `lo` to `hi`. -/
def AgreeOff (c c' : ℕ → C) (lo hi : ℕ) : Prop :=
  ∀ p, (∀ y, lo ≤ y → y < hi → p ≠ y % n) → c p = c' p

variable {F n} {c c' c'' : ℕ → C} {a b o i p lo hi : ℕ} {m : α} {q : List α} {xs : List (ℕ × α)}

/-- A position written as its lap and its index. -/
theorem lap_add_index (a : ℕ) : a / n * n + a % n = a := by
  rw [Nat.mul_comm]
  exact Nat.div_add_mod a n

theorem nextLap_eq (a : ℕ) (hn : 0 < n) : nextLap n a = a + (n - a % n) := by
  have h := lap_add_index (n := n) a
  have hlt := Nat.mod_lt a hn
  rw [nextLap, Nat.succ_mul]
  omega

@[simp] theorem nextLap_mod (a : ℕ) : nextLap n a % n = 0 := by
  simp [nextLap]

/-- Moving within a lap moves the index by the same amount. -/
theorem add_mod_of_lt {k : ℕ} (h : a % n + k < n) : (a + k) % n = a % n + k := by
  rw [Nat.add_mod, Nat.mod_eq_of_lt (show k < n by omega), Nat.mod_eq_of_lt h]

/-- The positions of a window no longer than the buffer denote distinct cells. -/
theorem index_ne_of_window {x y : ℕ} (hxy : x < y) (hwin : y < x + n) : x % n ≠ y % n := by
  intro h
  have hx := lap_add_index (n := n) x
  have hy := lap_add_index (n := n) y
  rw [h] at hx
  rcases Nat.lt_trichotomy (x / n) (y / n) with hlt | heq | hgt
  · have := Nat.mul_le_mul_right n (Nat.succ_le_of_lt hlt)
    rw [Nat.succ_mul] at this
    omega
  · rw [heq] at hx
    omega
  · have := Nat.mul_le_mul_right n (Nat.succ_le_of_lt hgt)
    rw [Nat.succ_mul] at this
    omega

/-- Two positions within one lap of each other, compared by their indices. -/
theorem lap_cases (hle : o ≤ i) (hlt : i < o + n) :
    o % n ≤ i % n ∧ i = o + (i % n - o % n) ∨ i % n < o % n ∧ i = o + (n - o % n + i % n) := by
  obtain ⟨k, rfl⟩ := Nat.exists_eq_add_of_le hle
  have hmod := Nat.mod_lt o (show 0 < n by omega)
  rw [Nat.add_mod_eq_ite, Nat.mod_eq_of_lt (show k < n by omega)]
  split <;> omega

/-- How far a position lies behind another one, from their indices. -/
theorem lap_distance (hle : o ≤ i) (hlt : i < o + n) : (i % n + n - o % n) % n = i - o := by
  have hi := Nat.mod_lt i (show 0 < n by omega)
  have ho := Nat.mod_lt o (show 0 < n by omega)
  rcases lap_cases hle hlt with ⟨hidx, heq⟩ | ⟨hidx, heq⟩
  · rw [show i % n + n - o % n = i % n - o % n + n by omega, Nat.add_mod_right,
      Nat.mod_eq_of_lt (by omega)]
    omega
  · rw [Nat.mod_eq_of_lt (by omega)]
    omega

theorem AgreeOff.refl (c : ℕ → C) : AgreeOff n c c lo hi := fun _ _ => rfl

theorem AgreeOff.trans (h : AgreeOff n c c' lo hi) (h' : AgreeOff n c' c'' lo hi) :
    AgreeOff n c c'' lo hi := fun p hp => (h p hp).trans (h' p hp)

/-- Enlarging the interval of possible differences. -/
theorem AgreeOff.mono {lo' hi' : ℕ} (h : AgreeOff n c c' lo hi) (hlo : lo' ≤ lo) (hhi : hi ≤ hi') :
    AgreeOff n c c' lo' hi' :=
  fun p hp => h p fun y hly hyh => hp y (by omega) (by omega)

/-- A write to an interval of indices, as a difference between positions. -/
theorem AgreeOff.of_interval {s len : ℕ} (hs : s % n = p) (hfit : p + len ≤ n)
    (h : ∀ x, x < p ∨ p + len ≤ x → c x = c' x) : AgreeOff n c c' s (s + len) := by
  intro x hx
  apply h
  by_contra hin
  have hy := hx (s + (x - p)) (by omega) (by omega)
  rw [add_mod_of_lt (by omega), hs] at hy
  omega

/-- A write within one lap of a position leaves the cells before it unchanged. -/
theorem AgreeOff.eq_of_before {x : ℕ} (h : AgreeOff n c c' lo hi) (hx : x < lo) (hhi : hi ≤ x + n) :
    c (x % n) = c' (x % n) :=
  h _ fun _ hly hyh => index_ne_of_window (by omega) (by omega)

/-- A write to a window of one lap leaves the cells behind it unchanged. -/
theorem AgreeOff.eq_of_after {x : ℕ} (h : AgreeOff n c c' lo hi) (hx : hi ≤ x) (hlo : x < lo + n) :
    c (x % n) = c' (x % n) :=
  h _ fun _ hly hyh => (index_ne_of_window (by omega) (by omega)).symm

/-- The cells of a message form an interval of positions that ends the frame. -/
theorem FrameAt.start (hn : 0 < n) (h : F.FrameAt n c a p m b) :
    ∃ s len, a ≤ s ∧ s % n = p ∧ b = s + len ∧ p + len ≤ n ∧ F.Here c p m len := by
  cases h with
  | here hh hfit => exact ⟨a, _, le_rfl, rfl, rfl, hfit, hh⟩
  | skip hs hh hfit =>
    have := nextLap_eq a hn
    exact ⟨nextLap n a, _, by omega, nextLap_mod a, rfl, by omega, hh⟩

/-- The end of a frame, as an index. -/
theorem FrameAt.mod_end (hn : 0 < n) {len : ℕ} (h : F.FrameAt n c a p m b)
    (hlen : F.Here c p m len) : b % n = (p + len) % n := by
  obtain ⟨s, len', _, rfl, rfl, _, hh⟩ := h.start hn
  rw [F.here_len hlen hh, Nat.mod_add_mod]

/-- A frame moves strictly forward. -/
theorem FrameAt.lt (hn : 0 < n) (h : F.FrameAt n c a p m b) : a < b := by
  obtain ⟨s, len, hs, _, rfl, _, hh⟩ := h.start hn
  have := F.here_pos hh
  omega

theorem Frame.lt (hn : 0 < n) (h : F.Frame n c a m b) : a < b := by
  obtain ⟨p, hp⟩ := h
  exact hp.lt hn

/-- A write to the cells of a message stays inside its frame. -/
theorem FrameAt.agreeOff (hn : 0 < n) {len : ℕ} (h : F.FrameAt n c a p m b)
    (hh : F.Here c p m len) (hc : ∀ x, x < p ∨ p + len ≤ x → c x = c' x) :
    AgreeOff n c c' a b := by
  obtain ⟨s, len', has, hsp, rfl, hfit, hh'⟩ := h.start hn
  obtain rfl := F.here_len hh hh'
  exact (AgreeOff.of_interval hsp hfit hc).mono has le_rfl

/-- A frame keeps its shape when the cells of its message are rewritten to hold
another message of the same extent, and only those cells change. -/
theorem FrameAt.rewrite (hn : 0 < n) (c' : ℕ → C) (m' : α) (h : F.FrameAt n c a p m b)
    (hwin : b ≤ a + n)
    (hc : ∀ len, F.Here c p m len → (∀ x, x < p ∨ p + len ≤ x → c x = c' x) ∧ F.Here c' p m' len) :
    F.FrameAt n c' a p m' b ∧ AgreeOff n c c' a b := by
  obtain ⟨s, len, -, -, -, -, hh⟩ := h.start hn
  obtain ⟨hother, hh'⟩ := hc len hh
  refine ⟨?_, h.agreeOff hn hh hother⟩
  cases h with
  | here hold hfit' =>
    have hlen := F.here_len hold hh
    exact .here (hlen ▸ hh') hfit'
  | skip hs hold hfit' =>
    obtain rfl := F.here_len hold hh
    have hlap := nextLap_eq a hn
    have hlt := Nat.mod_lt a hn
    -- the marker lies before the message and within one lap of it
    have hmark : c (a % n) = c' (a % n) :=
      (AgreeOff.of_interval (nextLap_mod a) (by omega) hother).eq_of_before
        (x := a) (by omega) hwin
    exact .skip (F.skip_congr hmark hs) hh' hfit'

/-- A frame depends only on the cells between its two ends. -/
theorem FrameAt.congr (hn : 0 < n) (hc : ∀ x, a ≤ x → x < b → c (x % n) = c' (x % n))
    (h : F.FrameAt n c a p m b) : F.FrameAt n c' a p m b := by
  cases h with
  | here hh hfit =>
    refine .here (F.here_congr (fun i hpi hilen => ?_) hh) hfit
    have hx := hc (a + (i - a % n)) (by omega) (by omega)
    rwa [add_mod_of_lt (by omega), Nat.add_sub_cancel' hpi] at hx
  | skip hs hh hfit =>
    have hlap := nextLap_eq a hn
    have hlt := Nat.mod_lt a hn
    have hpos := F.here_pos hh
    refine .skip (F.skip_congr (hc a le_rfl (by omega)) hs) (F.here_congr (fun i _ hilen => ?_) hh)
      hfit
    have hx := hc (nextLap n a + i) (by omega) (by omega)
    rwa [add_mod_of_lt (by rw [nextLap_mod]; omega), nextLap_mod, Nat.zero_add] at hx

theorem Frame.congr (hn : 0 < n) (hc : ∀ x, a ≤ x → x < b → c (x % n) = c' (x % n))
    (h : F.Frame n c a m b) : F.Frame n c' a m b := by
  obtain ⟨p, hp⟩ := h
  exact ⟨p, hp.congr hn hc⟩

/-- A queue depends only on the cells between its two ends. -/
theorem queue_congr (hn : 0 < n) (hc : ∀ x, a ≤ x → x < b → c (x % n) = c' (x % n))
    (h : F.Queue n c a q b) : F.Queue n c' a q b :=
  h.mono_within (Frame.lt hn)
    (fun hlo hhi hf => hf.congr hn fun x hax hxb => hc x (by omega) (by omega)) le_rfl le_rfl

/-- The queue survives every write made beyond its end and within one lap of
its beginning. -/
theorem queue_of_agreeOff (hn : 0 < n) (h : F.Queue n c o q i)
    (hc : AgreeOff n c c' i (o + n)) : F.Queue n c' o q i :=
  queue_congr hn (fun _ hox hxi => hc.eq_of_before hxi (by omega)) h

/-- The end of a queue lies at or beyond its beginning. -/
theorem queue_le (hn : 0 < n) (h : F.Queue n c o q i) : o ≤ i := h.le (Frame.lt hn)

/-- A queue is empty exactly when its two ends meet. -/
theorem queue_eq_nil_iff (hn : 0 < n) (h : F.Queue n c o q i) : q = [] ↔ o = i := by
  constructor
  · rintro rfl
    exact h.eq_of_nil
  · rintro rfl
    by_contra hne
    exact absurd (h.lt_of_ne_nil (Frame.lt hn) hne) (lt_irrefl _)

/-- Placed messages form a queue. -/
theorem placed_queue (h : F.Placed n c a xs b) : F.Queue n c a (xs.map Prod.snd) b := by
  induction h with
  | nil => exact .nil _
  | cons hs _ ih => exact .cons ⟨_, hs⟩ ih

theorem placed_le (hn : 0 < n) (h : F.Placed n c a xs b) : a ≤ b := queue_le hn (placed_queue h)

/-- Placed messages depend only on the cells between their two ends. -/
theorem placed_congr (hn : 0 < n) (hc : ∀ x, a ≤ x → x < b → c (x % n) = c' (x % n))
    (h : F.Placed n c a xs b) : F.Placed n c' a xs b :=
  h.mono_within (FrameAt.lt hn)
    (fun hlo hhi hf => hf.congr hn fun x hax hxb => hc x (by omega) (by omega)) le_rfl le_rfl

/-- Placed messages lie in their cells. -/
theorem placed_here (hn : 0 < n) (h : F.Placed n c a xs b) (hx : (p, m) ∈ xs) :
    ∃ len, F.Here c p m len := by
  induction h with
  | nil => simp at hx
  | cons hs _ ih =>
    rcases List.mem_cons.mp hx with rfl | htail
    · obtain ⟨_, len, -, -, -, -, hh⟩ := hs.start hn
      exact ⟨len, hh⟩
    · exact ih htail

/-- Every placed message lies between the two ends. -/
theorem placed_between (hn : 0 < n) (h : F.Placed n c a xs b) (hx : (p, m) ∈ xs) :
    ∃ s len, a ≤ s ∧ s + len ≤ b ∧ s % n = p ∧ p + len ≤ n ∧ F.Here c p m len := by
  induction h with
  | nil => simp at hx
  | cons hs hp ih =>
    rcases List.mem_cons.mp hx with rfl | htail
    · obtain ⟨s, len, has, hsp, rfl, hfit, hh⟩ := hs.start hn
      exact ⟨s, len, has, placed_le hn hp, hsp, hfit, hh⟩
    · obtain ⟨s, len, has, hsb, hrest⟩ := ih htail
      exact ⟨s, len, (hs.lt hn).le.trans has, hsb, hrest⟩

/-- Placed messages start inside the buffer. -/
theorem placed_fits (hn : 0 < n) (h : F.Placed n c a xs b) (hx : (p, m) ∈ xs) : p < n := by
  obtain ⟨s, len, -, -, -, hfit, hh⟩ := placed_between hn h hx
  have := F.here_pos hh
  omega

/-- The cells of a placed message have positions between the two ends. -/
theorem placed_position (hn : 0 < n) (h : F.Placed n c a xs b) (hx : (p, m) ∈ xs) {len k : ℕ}
    (hh : F.Here c p m len) (hpk : p ≤ k) (hk : k < p + len) : ∃ y, a ≤ y ∧ y < b ∧ y % n = k := by
  obtain ⟨s, len', has, hsb, rfl, hfit, hh'⟩ := placed_between hn h hx
  obtain rfl := F.here_len hh hh'
  refine ⟨s + (k - s % n), by omega, by omega, ?_⟩
  rw [add_mod_of_lt (by omega)]
  omega

/-- Messages placed within one lap have no cell in common. -/
theorem placed_pairwise (hn : 0 < n) (h : F.Placed n c a xs b) (hwin : b ≤ a + n) :
    xs.Pairwise fun x x' => ∀ {len len' k : ℕ}, F.Here c x.1 x.2 len → F.Here c x'.1 x'.2 len' →
      x.1 ≤ k → k < x.1 + len → x'.1 ≤ k → k < x'.1 + len' → False := by
  induction h with
  | nil => exact .nil
  | @cons a d b x xs hs hp ih =>
    have had := hs.lt hn
    have hdb := placed_le hn hp
    refine .cons ?_ (ih (by omega))
    intro x' hx' len len' k hh hh' hxk hk hxk' hk'
    have hhead : F.Placed n c a [x] d := .cons hs (.nil d)
    obtain ⟨y, hay, hyd, hy⟩ := placed_position hn hhead (List.mem_singleton.mpr rfl) hh hxk hk
    obtain ⟨y', hdy', hyb', hy'⟩ := placed_position hn hp hx' hh' hxk' hk'
    exact index_ne_of_window (by omega) (by omega) (hy.trans hy'.symm)

/-- One of the placed messages is rewritten in its own cells. -/
theorem placed_rewrite (hn : 0 < n) (c' : ℕ → C) (m' : α) {k : ℕ} (h : F.Placed n c a xs b)
    (hwin : b ≤ a + n) (hk : xs[k]? = some (p, m))
    (hc : ∀ len, F.Here c p m len → (∀ x, x < p ∨ p + len ≤ x → c x = c' x) ∧ F.Here c' p m' len) :
    F.Placed n c' a (xs.set k (p, m')) b ∧ AgreeOff n c c' a b := by
  induction h generalizing k with
  | nil => simp at hk
  | @cons a d b x xs hs hp ih =>
    have had := hs.lt hn
    have hdb := placed_le hn hp
    cases k with
    | zero =>
      obtain rfl : x = (p, m) := by simpa using hk
      obtain ⟨hframe, hagree⟩ := hs.rewrite hn c' m' (by omega) hc
      exact ⟨.cons hframe (placed_congr hn (fun x hdx hxb => hagree.eq_of_after hdx (by omega)) hp),
        hagree.mono le_rfl hdb⟩
    | succ k =>
      obtain ⟨htail, hagree⟩ := ih (by omega) (by simpa using hk)
      exact ⟨.cons (hs.congr hn fun x _ hxd => hagree.eq_of_before hxd (by omega)) htail,
        hagree.mono had.le le_rfl⟩

/-- Two positions of one lap with the same index are the same. -/
theorem eq_of_index {x y : ℕ} (hx : lo ≤ x) (hxn : x < lo + n) (hy : lo ≤ y) (hyn : y < lo + n)
    (h : x % n = y % n) : x = y := by
  rcases Nat.lt_trichotomy x y with hlt | heq | hgt
  · exact absurd h (index_ne_of_window hlt (by omega))
  · exact heq
  · exact absurd h.symm (index_ne_of_window hgt (by omega))

/-- From `a` to `b` lie at most `L` cells, apart from a tail that is left unused only
when it is shorter than `L`. -/
def Tight (n L a b : ℕ) : Prop :=
  b ≤ a + L ∨ n - a % n < L ∧ nextLap n a ≤ b ∧ b ≤ nextLap n a + L

variable (F n) in
/-- The messages `q` lie tightly between two positions. -/
abbrev TightQueue (L : ℕ) (c : ℕ → C) (a : ℕ) (q : List α) (b : ℕ) : Prop :=
  Steps (fun a m b => F.Frame n c a m b ∧ Tight n L a b) a q b

theorem tightQueue_of_agreeOff (hn : 0 < n) {L : ℕ} (h : F.TightQueue n L c o q i)
    (hc : AgreeOff n c c' i (o + n)) : F.TightQueue n L c' o q i := by
  refine h.mono_within (fun hs => hs.1.lt hn) ?_ le_rfl le_rfl
  intro a m b hlo hhi hs
  exact ⟨hs.1.congr hn fun x hax hxb => hc.eq_of_before (by omega) (by omega), hs.2⟩

/-- Every message takes at most `L` cells, and a tail is left unused once in a lap. -/
theorem tightQueue_le (hn : 0 < n) {L : ℕ} (h : F.TightQueue n L c a q b) :
    a / n ≤ b / n ∧ b ≤ a + L * q.length + (L - 1) * (b / n - a / n) := by
  induction h with
  | nil => simp
  | @cons a d b m q hs _ ih =>
    obtain ⟨hlaps, hle⟩ := ih
    obtain ⟨hframe, htight⟩ := hs
    have had : a / n ≤ d / n := Nat.div_le_div_right (hframe.lt hn).le
    have hlen : L * (m :: q).length = L * q.length + L := by rw [List.length_cons, Nat.mul_succ]
    refine ⟨had.trans hlaps, ?_⟩
    rcases htight with hnear | ⟨htail, hlap, hnear⟩
    · have hmono : (L - 1) * (b / n - d / n) ≤ (L - 1) * (b / n - a / n) :=
        Nat.mul_le_mul_left _ (by omega)
      omega
    · -- the tail is left behind with the lap of `a`
      have hnext : a / n + 1 ≤ d / n := (Nat.le_div_iff_mul_le hn).mpr hlap
      have hmono : (L - 1) * (b / n - d / n + 1) ≤ (L - 1) * (b / n - a / n) :=
        Nat.mul_le_mul_left _ (by omega)
      have hlap' := nextLap_eq a hn
      rw [Nat.mul_succ] at hmono
      omega

/-- Within a lap at most one tail is left unused. -/
theorem tightQueue_span (hn : 0 < n) {L : ℕ} (h : F.TightQueue n L c a q b) (hwin : b < a + n) :
    b ≤ a + L * q.length + (L - 1) := by
  obtain ⟨-, hle⟩ := tightQueue_le hn h
  have hlap : b / n ≤ a / n + 1 := by
    rw [← Nat.add_div_right a hn]
    exact Nat.div_le_div_right hwin.le
  have hmono : (L - 1) * (b / n - a / n) ≤ (L - 1) * 1 := Nat.mul_le_mul_left _ (by omega)
  omega

end Framing
