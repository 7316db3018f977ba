import Mathlib

/-!
# Keys that a keeper refreshes

A key with a time to live goes when its deadline has passed. Its keeper issues refreshes no
more than `period` apart, and they are carried out in order, each within `delay`. Anyone may
write the key, put its deadline off or remove it meanwhile. If `period + delay ≤ ttl`, the
deadline never passes, and a key that was removed is back within `period + delay`.
-/

namespace Refresh

/-- `struck` is when the key was last removed. -/
structure Key where
  present : Bool
  deadline : Option ℕ
  struck : Option ℕ

namespace Key

def write (k : Key) : Key := { k with present := true }

/-- A key that is absent is given no deadline. -/
def extend (k : Key) (d : ℕ) : Key := if k.present then { k with deadline := some d } else k

/-- Gives a deadline to a key that has none. -/
def extendNew (k : Key) (d : ℕ) : Key := if k.deadline = none then k.extend d else k

def strike (_ : Key) (now : ℕ) : Key := ⟨false, none, some now⟩

theorem extend_of_present {k : Key} (h : k.present = true) (d : ℕ) :
    k.extend d = { k with deadline := some d } := if_pos h

theorem extend_of_absent {k : Key} (h : k.present = false) (d : ℕ) : k.extend d = k := by
  simp [extend, h]

@[simp] theorem present_extend (k : Key) (d : ℕ) : (k.extend d).present = k.present := by
  unfold extend
  split_ifs <;> rfl

@[simp] theorem struck_extend (k : Key) (d : ℕ) : (k.extend d).struck = k.struck := by
  unfold extend
  split_ifs <;> rfl

theorem extendNew_cases (k : Key) (d : ℕ) : k.extendNew d = k ∨ k.extendNew d = k.extend d := by
  unfold extendNew
  split_ifs
  · exact .inr rfl
  · exact .inl rfl

theorem deadline_extend {k : Key} {d e : ℕ} (h : e ∈ (k.extend d).deadline) :
    e ∈ k.deadline ∨ e = d := by
  unfold extend at h
  split_ifs at h
  · exact .inr (Option.some.inj h).symm
  · exact .inl h

end Key

/-- What anyone may do to a key at `now`. -/
inductive Act (ttl now : ℕ) (k : Key) : Key → Prop
  | rest : Act ttl now k k
  | write : Act ttl now k k.write
  | extend : Act ttl now k (k.extend (now + ttl))
  | strike : Act ttl now k (k.strike now)

/-- A key that is absent has no deadline. -/
def Key.Proper (k : Key) : Prop := k.present = false → k.deadline = none

theorem Act.extendNew (ttl now : ℕ) (k : Key) : Act ttl now k (k.extendNew (now + ttl)) := by
  rcases k.extendNew_cases (now + ttl) with h | h <;> rw [h]
  · exact .rest
  · exact .extend

theorem Act.proper {ttl now : ℕ} {k k' : Key} (h : Act ttl now k k') (hk : k.Proper) :
    k'.Proper := by
  cases h with
  | rest => exact hk
  | write =>
    intro habsent
    cases habsent
  | extend =>
    intro habsent
    rw [Key.present_extend] at habsent
    rw [Key.extend_of_absent habsent]
    exact hk habsent
  | strike => exact fun _ => rfl

theorem Act.deadline {ttl now : ℕ} {k k' : Key} (h : Act ttl now k k') {d : ℕ}
    (hd : d ∈ k'.deadline) : d ∈ k.deadline ∨ d = now + ttl := by
  cases h with
  | rest => exact .inl hd
  | write => exact .inl hd
  | extend => exact Key.deadline_extend hd
  | strike => cases hd

/-! ### Refreshes that follow each other -/

/-- Counted from the refresh issued at `b`, none follows more than `period` after the one
before it, and the last one is no older than `beat`. -/
def Steady (period : ℕ) : ℕ → List ℕ → ℕ → Prop
  | b, [], beat => beat ≤ b
  | b, x :: xs, beat => x ≤ b + period ∧ Steady period x xs beat

variable {period ttl now since beat beat' b : ℕ} {pending : List ℕ}

theorem Steady.older (h : Steady period b pending beat) (hb : beat' ≤ beat) :
    Steady period b pending beat' := by
  induction pending generalizing b with
  | nil => exact hb.trans h
  | cons x xs ih => exact ⟨h.1, ih h.2⟩

theorem Steady.newer (h : Steady period b pending beat) {b' : ℕ} (hb : b ≤ b') :
    Steady period b' pending beat := by
  cases pending with
  | nil => exact le_trans (b := b) h hb
  | cons x xs =>
    obtain ⟨hx, h⟩ := h
    exact ⟨by omega, h⟩

theorem Steady.issue (h : Steady period b pending beat) (hn : now ≤ beat + period)
    (hb : beat' ≤ now) : Steady period b (pending ++ [now]) beat' := by
  induction pending generalizing b with
  | nil =>
    have hbase : beat ≤ b := h
    refine ⟨?_, hb⟩
    omega
  | cons x xs ih => exact ⟨h.1, ih h.2⟩

/-- A refresh that is still to be carried out was issued soon after the one before it. -/
theorem Steady.due (h : Steady period b pending beat) {delay : ℕ}
    (hn : pending = [] → now ≤ beat + period) (hp : ∀ x ∈ pending, now ≤ x + delay) :
    now ≤ b + (period + delay) := by
  cases pending with
  | nil =>
    have hbase : beat ≤ b := h
    have hbeat := hn rfl
    omega
  | cons x xs =>
    have hx := hp x List.mem_cons_self
    have hgap := h.1
    omega

/-! ### Keeping a key -/

/-- A key kept since `since`, with the refreshes that wait to be carried out. Until the one
issued at `since` is, nothing is known of the key; later `b` is the last one carried out. -/
inductive Kept (period ttl now since beat : ℕ) : List ℕ → Key → Prop
  | opening {before after : List ℕ} {k : Key} (hb : ∀ x ∈ before, x ≤ since)
      (h : Steady period since after beat) :
      Kept period ttl now since beat (before ++ since :: after) k
  | settled {b : ℕ} {pending : List ℕ} {k : Key} (hs : since ≤ b) (hn : b ≤ now)
      (h : Steady period b pending beat) (hd : ∀ d ∈ k.deadline, b + ttl ≤ d)
      (hp : k.present = true ∨ ∃ s ∈ k.struck, b ≤ s) :
      Kept period ttl now since beat pending k

variable {k k' : Key}

theorem Kept.start (h : ∀ x ∈ pending, x ≤ since) :
    Kept period ttl now since since (pending ++ [since]) k :=
  have hsteady : Steady period since [] since := le_refl since
  .opening h hsteady

theorem Kept.tick (h : Kept period ttl now since beat pending k) {now' : ℕ} (hn : now ≤ now') :
    Kept period ttl now' since beat pending k := by
  cases h with
  | opening hb h => exact .opening hb h
  | settled hs hb h hd hp => exact .settled hs (hb.trans hn) h hd hp

theorem Kept.older (h : Kept period ttl now since beat pending k) (hb : beat' ≤ beat) :
    Kept period ttl now since beat' pending k := by
  cases h with
  | opening hbefore h => exact .opening hbefore (h.older hb)
  | settled hs hn h hd hp => exact .settled hs hn (h.older hb) hd hp

theorem Kept.issue (h : Kept period ttl now since beat pending k) (hn : now ≤ beat + period)
    (hb : beat' ≤ now) : Kept period ttl now since beat' (pending ++ [now]) k := by
  cases h with
  | @opening before after _ hbefore h =>
    rw [List.append_assoc, List.cons_append]
    exact .opening hbefore (h.issue hn hb)
  | settled hs hbn h hd hp => exact .settled hs hbn (h.issue hn hb) hd hp

/-- Several refreshes issued at once; without any, `beat` may not move on. -/
theorem Kept.issue_all {new : List ℕ} (h : Kept period ttl now since beat pending k)
    (hnew : ∀ x ∈ new, x = now) (hn : now ≤ beat + period) (hb : beat' ≤ now)
    (hnone : new = [] → beat' ≤ beat) : Kept period ttl now since beat' (pending ++ new) k := by
  induction new generalizing pending beat with
  | nil => simpa using h.older (hnone rfl)
  | cons x new ih =>
    obtain rfl := hnew x List.mem_cons_self
    rw [List.append_cons]
    exact ih (h.issue hn le_rfl) (fun y hy => hnew y (List.mem_cons_of_mem _ hy))
      (Nat.le_add_right _ _) fun _ => hb

/-- The keeper's next refresh is carried out; it has written the key just before. -/
theorem Kept.carry {x : ℕ} (h : Kept period ttl now since beat (x :: pending) k)
    (hx : x ≤ now) (hp : k.present = true ∨ ∃ s ∈ k.struck, x ≤ s) (habsent : k.Proper) :
    Kept period ttl now since beat pending (k.extend (now + ttl)) := by
  have hd : ∀ d ∈ (k.extend (now + ttl)).deadline, x + ttl ≤ d := by
    intro d hd
    cases hk : k.present with
    | true =>
      rw [Key.extend_of_present hk] at hd
      obtain rfl := Option.some.inj hd
      omega
    | false =>
      rw [Key.extend_of_absent hk, habsent hk] at hd
      cases hd
  have hp' : (k.extend (now + ttl)).present = true ∨
      ∃ s ∈ (k.extend (now + ttl)).struck, x ≤ s := by
    rwa [Key.present_extend, Key.struck_extend]
  generalize hq : x :: pending = q at h
  cases h with
  | @opening before after _ hbefore h =>
    cases before with
    | nil =>
      obtain ⟨rfl, rfl⟩ := List.cons.inj hq
      exact .settled (le_refl _) hx h hd hp'
    | cons y before =>
      obtain ⟨-, rfl⟩ := List.cons.inj hq
      exact .opening (fun z hz => hbefore z (List.mem_cons_of_mem _ hz)) h
  | @settled b _ _ hs hn h hd' hb =>
    subst hq
    -- a refresh that was issued before the last one carried out changes nothing
    rcases le_total b x with hbx | hbx
    · exact .settled (hs.trans hbx) hx h.2 hd hp'
    · refine .settled hs hn (h.2.newer hbx) (fun d he => ?_) (by simpa using hb)
      rcases Key.deadline_extend he with he | rfl
      · exact hd' d he
      · omega

theorem Kept.act (h : Kept period ttl now since beat pending k) (ha : Act ttl now k k') :
    Kept period ttl now since beat pending k' := by
  cases h with
  | opening hb h => exact .opening hb h
  | @settled b _ _ hs hbn h hd hb =>
    cases ha with
    | rest => exact .settled hs hbn h hd hb
    | write => exact .settled hs hbn h hd (.inl rfl)
    | extend =>
      refine .settled hs hbn h (fun d he => ?_) (by simpa using hb)
      rcases Key.deadline_extend he with he | rfl
      · exact hd d he
      · omega
    | strike => exact .settled hs hbn h (fun d he => by cases he) (.inr ⟨now, rfl, hbn⟩)

/-- A key that was kept for more than `delay` has not passed its deadline, and it is there unless
it was removed a short while ago. -/
theorem Kept.alive (h : Kept period ttl now since beat pending k) {delay : ℕ}
    (hn : pending = [] → now ≤ beat + period) (hp : ∀ x ∈ pending, now ≤ x + delay)
    (hsmall : period + delay ≤ ttl) (hold : since + delay < now) :
    (∀ d ∈ k.deadline, now ≤ d) ∧
      (k.present = true ∨ ∃ s ∈ k.struck, now ≤ s + (period + delay)) := by
  cases h with
  | opening _ h =>
    have hdue := hp since (List.mem_append_right _ List.mem_cons_self)
    omega
  | @settled b _ _ hs hbn h hd hb =>
    have hdue := h.due hn hp
    refine ⟨fun d he => ?_, hb.imp_right fun hs => ?_⟩
    · have hlate := hd d he
      omega
    · obtain ⟨s, hs, hbs⟩ := hs
      exact ⟨s, hs, by omega⟩

/-! ### Keys that are kept no longer -/

/-- The refreshes that still wait are older than `since`, or they go on as if the key were
kept. -/
def Loose (period ttl now since : ℕ) (pending : List ℕ) (k : Key) : Prop :=
  (∀ x ∈ pending, x ≤ since) ∨ Kept period ttl now since 0 pending k

theorem Kept.loose (h : Kept period ttl now since beat pending k) :
    Loose period ttl now since pending k :=
  .inr (h.older (Nat.zero_le _))

theorem Loose.tick (h : Loose period ttl now since pending k) {now' : ℕ} (hn : now ≤ now') :
    Loose period ttl now' since pending k :=
  h.imp_right fun h => h.tick hn

theorem Loose.carry {x : ℕ} (h : Loose period ttl now since (x :: pending) k)
    (hx : x ≤ now) (hp : k.present = true ∨ ∃ s ∈ k.struck, x ≤ s) (habsent : k.Proper) :
    Loose period ttl now since pending (k.extend (now + ttl)) :=
  h.imp (fun h y hy => h y (List.mem_cons_of_mem _ hy)) fun h => h.carry hx hp habsent

theorem Loose.act (h : Loose period ttl now since pending k) (ha : Act ttl now k k') :
    Loose period ttl now since pending k' :=
  h.imp_right fun h => h.act ha

theorem Steady.of_append {xs ys : List ℕ} (h : Steady period b (xs ++ ys) beat) :
    Steady period b xs 0 := by
  induction xs generalizing b with
  | nil => exact Nat.zero_le b
  | cons x xs ih => exact ⟨h.1, ih h.2⟩

/-- The refreshes at the end of the queue may be lost. -/
theorem Loose.of_append {xs ys : List ℕ} (h : Loose period ttl now since (xs ++ ys) k) :
    Loose period ttl now since xs k := by
  rcases h with h | h
  · exact .inl fun x hx => h x (List.mem_append_left ys hx)
  · generalize hq : xs ++ ys = q at h
    cases h with
    | settled hs hn h hd hp =>
      subst hq
      exact .inr (.settled hs hn h.of_append hd hp)
    | @opening before after _ hb h =>
      rcases List.append_eq_append_iff.mp hq with ⟨r, rfl, -⟩ | ⟨r, rfl, hr⟩
      · exact .inl fun x hx => hb x (List.mem_append_left r hx)
      · cases r with
        | nil => exact .inl (by simpa using hb)
        | cons z r =>
          obtain ⟨rfl, rfl⟩ := List.cons.inj hr
          exact .inr (.opening hb h.of_append)

end Refresh
