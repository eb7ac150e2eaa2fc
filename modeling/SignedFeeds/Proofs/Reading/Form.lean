/-
# The written forms that a reader accepts

Writing goes from left to right, reading from the end of a buffer to the left.  A form says
which byte strings are the written form of a value.  A reader *accepts* a form when it
succeeds exactly on the buffers that end in a written form of some value, and then returns
that value and takes exactly its bytes off.  One such statement says both that reading undoes
writing and that nothing else can be read.

* `Accepts.bind`: what is read first stands furthest right;
* `times_accepts`: a counted loop accepts the items one behind the other;
* `Accepts.checked`: a test that reads nothing narrows the form, or leaves it alone when the
  form implies it.
-/
import Mathlib.Tactic.Common
import SignedFeeds.Wire.Tail

namespace SignedFeeds

namespace Tail

/-- Taking `bytes` off the end of `t` leaves `t'`. -/
structure Split (t : Tail) (bytes : List UInt8) (t' : Tail) : Prop where
  rest_eq : t.rest = t'.rest ++ bytes
  consumed_eq : t'.consumed = t.consumed + bytes.length

lemma eq_of_rest_eq {t t' : Tail} (hrest : t.rest = t'.rest) (hconsumed : t.consumed = t'.consumed) :
    t = t' := by
  cases t
  cases t'
  simp only [rest, List.reverse_inj] at hrest
  simp_all

namespace Split

variable {t t' t'' : Tail} {bytes front back : List UInt8}

lemma nil_iff : t.Split [] t' ↔ t' = t := by
  constructor
  · rintro ⟨hrest, hconsumed⟩
    exact eq_of_rest_eq (by simpa using hrest.symm) (by simpa using hconsumed)
  · rintro rfl
    exact ⟨by simp, by simp⟩

/-- What stands furthest right is taken off first. -/
lemma append_iff : t.Split (front ++ back) t'' ↔ ∃ t', t.Split back t' ∧ t'.Split front t'' := by
  constructor
  · rintro ⟨hrest, hconsumed⟩
    refine ⟨⟨(t''.rest ++ front).reverse, t.consumed + back.length⟩, ⟨?_, rfl⟩, ⟨?_, ?_⟩⟩
    · simpa [rest] using hrest
    · simp [rest]
    · simp only [hconsumed, List.length_append]
      omega
  · rintro ⟨t', ⟨hrest, hconsumed⟩, ⟨hrest', hconsumed'⟩⟩
    refine ⟨by rw [hrest, hrest', List.append_assoc], ?_⟩
    rw [hconsumed', hconsumed, List.length_append]
    omega

lemma remaining_eq (h : t.Split bytes t') : t.remaining = t'.remaining + bytes.length := by
  rw [← length_rest, h.rest_eq, List.length_append, length_rest]

lemma length_le (h : t.Split bytes t') : bytes.length ≤ t.remaining := by
  rw [h.remaining_eq]
  omega

/-- Two ways to take equally many bytes off are the same. -/
lemma unique {bytes' : List UInt8} (h : t.Split bytes t') (h' : t.Split bytes' t'')
    (hlen : bytes.length = bytes'.length) : bytes = bytes' ∧ t' = t'' := by
  have hrest : t'.rest ++ bytes = t''.rest ++ bytes' := by rw [← h.rest_eq, h'.rest_eq]
  obtain ⟨hfront, rfl⟩ := List.append_inj' hrest hlen
  exact ⟨rfl, eq_of_rest_eq hfront (by rw [h.consumed_eq, h'.consumed_eq])⟩

lemma peek? {n : Nat} (h : t.Split bytes t') (hlen : bytes.length = n) : t.peek? n = some bytes :=
  peek?_eq_some_iff.mpr ⟨hlen, t'.rest, h.rest_eq⟩

end Split

/-- The end of a buffer taken off the whole of it. -/
lemma split_ofBytes (front bytes : List UInt8) :
    (ofBytes (front ++ bytes)).Split bytes ⟨front.reverse, bytes.length⟩ :=
  ⟨by rw [rest_ofBytes, rest, List.reverse_reverse], (Nat.zero_add _).symm⟩

/-- The bytes at the end, taken off, leave what stands in front of them. -/
lemma exists_split_of_rest {t : Tail} {front bytes : List UInt8} (h : t.rest = front ++ bytes) :
    ∃ t', t.Split bytes t' ∧ t'.rest = front := by
  have hfront : rest ⟨front.reverse, t.consumed + bytes.length⟩ = front := by simp [rest]
  exact ⟨_, ⟨by rw [h, hfront], rfl⟩, hfront⟩

/-- The tail behind `n` more bytes. -/
def skip (t : Tail) (n : Nat) : Tail := ⟨t.unread.drop n, t.consumed + n⟩

lemma exists_split {t : Tail} {n : Nat} (h : n ≤ t.remaining) :
    ∃ bytes, bytes.length = n ∧ t.Split bytes (t.skip n) := by
  have hlen : (t.unread.take n).length = n := by
    rw [List.length_take]
    exact Nat.min_eq_left h
  refine ⟨(t.unread.take n).reverse, by simpa using hlen, ⟨?_, ?_⟩⟩
  · rw [skip, rest, rest, ← List.reverse_append, List.take_append_drop]
  · rw [skip, List.length_reverse, hlen]

lemma Split.eq_skip {t t' : Tail} {bytes : List UInt8} (h : t.Split bytes t') :
    t' = t.skip bytes.length := by
  obtain ⟨bytes', hlen, h'⟩ := exists_split h.length_le
  exact (h.unique h' hlen.symm).2

end Tail

/-- Which byte strings are the written form of a value. -/
abbrev Form (α : Type) := α → List UInt8 → Prop

namespace Form

variable {α : Type} {P : Form α}

/-- The form of a list of items, one behind the other. -/
def many (P : Form α) : Form (List α)
  | [], bytes => bytes = []
  | x :: xs, bytes => ∃ front back, P x front ∧ P.many xs back ∧ bytes = front ++ back

@[simp] lemma many_nil {bytes : List UInt8} : P.many [] bytes ↔ bytes = [] := Iff.rfl

@[simp] lemma many_cons {x : α} {xs : List α} {bytes : List UInt8} :
    P.many (x :: xs) bytes ↔
      ∃ front back, P x front ∧ P.many xs back ∧ bytes = front ++ back := Iff.rfl

/-- The form of a list, by its last item. -/
lemma many_concat {x : α} {xs : List α} {bytes : List UInt8} :
    P.many (xs ++ [x]) bytes ↔
      ∃ front back, P.many xs front ∧ P x back ∧ bytes = front ++ back := by
  induction xs generalizing bytes with
  | nil => simp
  | cons y ys ih =>
    simp only [List.cons_append, many_cons, ih]
    constructor
    · rintro ⟨a, _, ha, ⟨b, c, hb, hc, rfl⟩, rfl⟩
      exact ⟨a ++ b, c, ⟨a, b, ha, hb, rfl⟩, hc, (List.append_assoc ..).symm⟩
    · rintro ⟨_, c, ⟨a, b, ha, hb, rfl⟩, hc, rfl⟩
      exact ⟨a, b ++ c, ha, ⟨b, c, hb, hc, rfl⟩, List.append_assoc ..⟩

/-- A property of the items can be asked of each of them apart. -/
lemma many_and {p : α → Prop} {xs : List α} {bytes : List UInt8} :
    Form.many (fun x b => p x ∧ P x b) xs bytes ↔ (∀ x ∈ xs, p x) ∧ P.many xs bytes := by
  induction xs generalizing bytes with
  | nil => simp
  | cons x xs ih =>
    simp only [many_cons, ih, List.forall_mem_cons]
    grind

/-- Items with one written form each. -/
lemma many_eq_iff {f : α → List UInt8} {xs : List α} {bytes : List UInt8} :
    Form.many (fun x b => b = f x) xs bytes ↔ bytes = xs.flatMap f := by
  induction xs generalizing bytes with
  | nil => simp
  | cons x xs ih => simp [ih]

lemma exists_of_many {x : α} {xs : List α} {bytes : List UInt8} (h : P.many xs bytes)
    (hx : x ∈ xs) : ∃ b, P x b := by
  induction xs generalizing bytes with
  | nil => cases hx
  | cons y ys ih =>
    obtain ⟨front, back, hy, hys, rfl⟩ := h
    rcases List.mem_cons.mp hx with rfl | hx
    · exact ⟨front, hy⟩
    · exact ih hys hx

/-- Where each item has at least `n` bytes, so many items have as many times more. -/
lemma length_le_of_many {n : Nat} (h : ∀ x b, P x b → n ≤ b.length) {xs : List α}
    {bytes : List UInt8} (hmany : P.many xs bytes) : xs.length * n ≤ bytes.length := by
  induction xs generalizing bytes with
  | nil => simp
  | cons x xs ih =>
    obtain ⟨front, back, hx, hxs, rfl⟩ := hmany
    have := h x front hx
    have := ih hxs
    rw [List.length_cons, List.length_append, Nat.succ_mul]
    omega

/-- Items of one form, each replaced by one of another form with the same bytes. -/
lemma exists_many {β : Type} {Q : Form β} (h : ∀ x b, P x b → ∃ y, Q y b)
    {xs : List α} {bytes : List UInt8} (hmany : P.many xs bytes) :
    ∃ ys, ys.length = xs.length ∧ Q.many ys bytes := by
  induction xs generalizing bytes with
  | nil => exact ⟨[], rfl, hmany⟩
  | cons x xs ih =>
    obtain ⟨front, back, hx, hxs, rfl⟩ := hmany
    obtain ⟨y, hy⟩ := h x front hx
    obtain ⟨ys, hlen, hys⟩ := ih hxs
    exact ⟨y :: ys, by rw [List.length_cons, hlen, List.length_cons], front, back, hy, hys, rfl⟩

end Form

namespace Reader

variable {ε ε' α β : Type}

/-! ## What a run of a reader looks like -/

lemma bind_apply (read : Reader ε α) (next : α → Reader ε β) (t : Tail) :
    (read >>= next) t =
      match read t with
      | .ok a t' => next a t'
      | .error e t' => .error e t' := by
  show EStateM.bind read next t = _
  rw [EStateM.bind]
  cases read t <;> rfl

lemma bind_eq_ok_iff {read : Reader ε α} {next : α → Reader ε β} {t t'' : Tail} {b : β} :
    (read >>= next) t = .ok b t'' ↔ ∃ a t', read t = .ok a t' ∧ next a t' = .ok b t'' := by
  rw [bind_apply]
  constructor
  · intro h
    split at h
    · next a t' hread => exact ⟨a, t', hread, h⟩
    · cases h
  · rintro ⟨a, t', hread, hnext⟩
    simp only [hread, hnext]

lemma take_eq_ok_iff {field : String} {n : Nat} {t t' : Tail} {bytes : List UInt8} :
    take field n t = .ok bytes t' ↔ bytes.length = n ∧ t.Split bytes t' := by
  rw [take]
  constructor
  · intro h
    split at h
    · next taken hpeek =>
      obtain ⟨rfl, rfl⟩ := EStateM.Result.ok.inj h
      -- the bytes that were seen are the last ones, and those are skipped
      obtain ⟨hlen, front, hrest⟩ := Tail.peek?_eq_some_iff.mp hpeek
      have hle : n ≤ t.remaining := by
        rw [← Tail.length_rest, hrest, List.length_append]
        omega
      obtain ⟨last, hlast, hsplit⟩ := Tail.exists_split hle
      obtain rfl : last = taken := (List.append_inj' (hsplit.rest_eq.symm.trans hrest)
        (hlast.trans hlen.symm)).2
      exact ⟨hlen, hsplit⟩
    · cases h
  · rintro ⟨rfl, hsplit⟩
    rw [hsplit.peek? rfl, hsplit.eq_skip]
    rfl

lemma takeCounter_eq_ok_iff {c : Counter} {t t' : Tail} {value : Nat} :
    takeCounter c t = .ok value t' ↔
      ∃ bytes, bytes.length = c.width ∧ t.Split bytes t' ∧ value = BigEndian.toNat bytes := by
  rw [takeCounter, ← bind_pure_comp, bind_eq_ok_iff]
  constructor
  · rintro ⟨bytes, s, htake, hpure⟩
    obtain ⟨rfl, rfl⟩ := EStateM.Result.ok.inj hpure
    obtain ⟨hlen, hsplit⟩ := take_eq_ok_iff.mp htake
    exact ⟨bytes, hlen, hsplit, rfl⟩
  · rintro ⟨bytes, hlen, hsplit, rfl⟩
    exact ⟨bytes, t', take_eq_ok_iff.mpr ⟨hlen, hsplit⟩, rfl⟩

lemma takeCounter_lt {c : Counter} {t t' : Tail} {value : Nat}
    (h : takeCounter c t = .ok value t') : value < BigEndian.capacity c.width := by
  obtain ⟨bytes, hlen, -, rfl⟩ := takeCounter_eq_ok_iff.mp h
  rw [← hlen]
  exact BigEndian.toNat_lt bytes

lemma require_eq_ok_iff {field : String} {count size : Nat} {t t' : Tail} {u : Unit} :
    require field count size t = .ok u t' ↔ count * size ≤ t.remaining ∧ t' = t := by
  rw [require]
  split
  · next h =>
    have := Tail.holds_iff.mp h
    constructor
    · intro heq
      exact ⟨this, (EStateM.Result.ok.inj heq).2.symm⟩
    · rintro ⟨_, rfl⟩
      rfl
  · next h =>
    rw [Tail.holds_iff] at h
    exact iff_of_false (by rintro ⟨⟩) fun hle => h hle.1

lemma mapError_eq_ok_iff {f : ε → ε'} {read : Reader ε α} {t t' : Tail} {a : α} :
    mapError f read t = .ok a t' ↔ read t = .ok a t' := by
  rw [mapError]
  split <;> simp_all

/-! ## Acceptance -/

/-- The reader succeeds on the buffers that end in a written form of a value, and takes
exactly that form off. -/
def Accepts (read : Reader ε α) (P : Form α) : Prop :=
  ∀ t a t', read t = .ok a t' ↔ ∃ bytes, P a bytes ∧ t.Split bytes t'

/-- The reader takes a value off the end and leaves `rest` unread. -/
def Leaves (read : Reader ε α) (t : Tail) (a : α) (rest : List UInt8) : Prop :=
  ∃ t', read t = .ok a t' ∧ t'.rest = rest

/-- The reader is a test: it looks, and reads nothing. -/
def Checks (read : Reader ε Unit) (cond : Tail → Prop) : Prop :=
  ∀ t u t', read t = .ok u t' ↔ cond t ∧ t' = t

namespace Accepts

variable {read : Reader ε α} {P Q : Form α}

lemma congr (h : read.Accepts P) (hPQ : ∀ a bytes, P a bytes ↔ Q a bytes) : read.Accepts Q := by
  intro t a t'
  simp only [h t a t', hPQ]

/-- No written form is the end of another one. -/
lemma suffix_free (h : read.Accepts P) {a b : α} {front bytes : List UInt8} (ha : P a bytes)
    (hb : P b (front ++ bytes)) : a = b ∧ front = [] := by
  -- one run over the longer string gives both values
  have hshort := (h _ a _).mpr ⟨bytes, ha, Tail.split_ofBytes front bytes⟩
  have hlong := (h _ b _).mpr ⟨front ++ bytes, hb, Tail.split_ofBytes [] (front ++ bytes)⟩
  rw [List.nil_append, hshort] at hlong
  obtain ⟨rfl, htail⟩ := EStateM.Result.ok.inj hlong
  refine ⟨rfl, List.reverse_eq_nil_iff.mp ?_⟩
  exact congrArg Tail.unread htail

/-- No bytes are the written form of two values. -/
lemma unique (h : read.Accepts P) {a b : α} {bytes : List UInt8} (ha : P a bytes)
    (hb : P b bytes) : a = b := by
  rw [← List.nil_append bytes] at hb
  exact (h.suffix_free ha hb).1

/-- What is left is what stands in front of the written form. -/
lemma leaves_iff (h : read.Accepts P) {t : Tail} {a : α} {rest : List UInt8} :
    read.Leaves t a rest ↔ ∃ bytes, P a bytes ∧ t.rest = rest ++ bytes := by
  constructor
  · rintro ⟨t', hread, rfl⟩
    obtain ⟨bytes, hP, hsplit⟩ := (h t a t').mp hread
    exact ⟨bytes, hP, hsplit.rest_eq⟩
  · rintro ⟨bytes, hP, hrest⟩
    obtain ⟨t', hsplit, hfront⟩ := Tail.exists_split_of_rest hrest
    exact ⟨t', (h t a t').mpr ⟨bytes, hP, hsplit⟩, hfront⟩

/-- A buffer that has to be read to its front is exactly a written form. -/
lemma whole_eq_ok_iff {read : Reader WireError α} (h : read.Accepts P) {field : String}
    {buffer : List UInt8} {a : α} : whole field read buffer = .ok a ↔ P a buffer := by
  have hleaves : read.Leaves (Tail.ofBytes buffer) a [] ↔ _ := h.leaves_iff
  simp only [Tail.rest_ofBytes, List.nil_append, exists_eq_right'] at hleaves
  rw [← hleaves, whole, Leaves]
  cases hread : read (Tail.ofBytes buffer) with
  | error e t => simp
  | ok b t =>
    have hnil : t.rest = [] ↔ t.unread.isEmpty := by simp [Tail.rest]
    simp only [EStateM.Result.ok.injEq]
    split_ifs with hempty
    · constructor
      · intro hok
        exact ⟨t, ⟨Except.ok.inj hok, rfl⟩, hnil.mpr hempty⟩
      · rintro ⟨_, ⟨rfl, rfl⟩, _⟩
        rfl
    · refine iff_of_false (by rintro ⟨⟩) ?_
      rintro ⟨_, ⟨_, rfl⟩, hrest⟩
      exact hempty (hnil.mp hrest)

protected lemma pure (a : α) :
    Accepts (pure a : Reader ε α) fun b bytes => b = a ∧ bytes = [] := by
  intro t b t'
  constructor
  · intro h
    obtain ⟨rfl, rfl⟩ := EStateM.Result.ok.inj h
    exact ⟨[], ⟨rfl, rfl⟩, Tail.Split.nil_iff.mpr rfl⟩
  · rintro ⟨_, ⟨rfl, rfl⟩, hsplit⟩
    rw [Tail.Split.nil_iff.mp hsplit]
    rfl

protected lemma throw (e : ε) : Accepts (throw e : Reader ε α) fun _ _ => False := by
  intro t a t'
  refine iff_of_false ?_ (by rintro ⟨_, ⟨⟩, _⟩)
  rintro ⟨⟩

/-- What is read first stands furthest right. -/
lemma bind {next : α → Reader ε β} {R : α → Form β} (h : read.Accepts P)
    (hnext : ∀ a, (next a).Accepts (R a)) :
    (read >>= next).Accepts fun b bytes =>
      ∃ a front back, P a back ∧ R a b front ∧ bytes = front ++ back := by
  intro t b t''
  rw [bind_eq_ok_iff]
  constructor
  · rintro ⟨a, t', hread, hrest⟩
    obtain ⟨back, hP, hback⟩ := (h t a t').mp hread
    obtain ⟨front, hR, hfront⟩ := (hnext a t' b t'').mp hrest
    exact ⟨front ++ back, ⟨a, front, back, hP, hR, rfl⟩,
      Tail.Split.append_iff.mpr ⟨t', hback, hfront⟩⟩
  · rintro ⟨_, ⟨a, front, back, hP, hR, rfl⟩, hsplit⟩
    obtain ⟨t', hback, hfront⟩ := Tail.Split.append_iff.mp hsplit
    exact ⟨a, t', (h t a t').mpr ⟨back, hP, hback⟩, (hnext a t' b t'').mpr ⟨front, hR, hfront⟩⟩

lemma returning (h : read.Accepts P) (f : α → β) :
    Accepts (read >>= fun a => pure (f a)) fun b bytes => ∃ a, b = f a ∧ P a bytes := by
  refine (h.bind fun a => Accepts.pure (f a)).congr fun b bytes => ?_
  constructor
  · rintro ⟨a, _, back, hP, ⟨rfl, rfl⟩, rfl⟩
    exact ⟨a, rfl, hP⟩
  · rintro ⟨a, rfl, hP⟩
    exact ⟨a, [], bytes, hP, ⟨rfl, rfl⟩, rfl⟩

lemma map (h : read.Accepts P) (f : α → β) :
    (f <$> read).Accepts fun b bytes => ∃ a, b = f a ∧ P a bytes := by
  rw [← bind_pure_comp]
  exact h.returning f

lemma mapError (h : read.Accepts P) (f : ε → ε') : (Reader.mapError f read).Accepts P := by
  intro t a t'
  rw [mapError_eq_ok_iff, h t a t']

/-- A fault that is thrown before the rest is read leaves the forms without that fault. -/
lemma guarded {cond : Prop} [Decidable cond] {e : ε} {next : Unit → Reader ε α}
    (h : (next ()).Accepts P) :
    Accepts (if cond then throw e >>= next else next ()) fun a bytes => ¬ cond ∧ P a bytes := by
  intro t a t'
  split
  · next hcond =>
    refine iff_of_false ?_ (by rintro ⟨_, ⟨hnot, _⟩, _⟩; exact hnot hcond)
    rintro ⟨⟩
  · next hcond => simp [h t a t', hcond]

/-- A test in front of a reader, where its outcome depends on the value alone. -/
lemma checked {check : Reader ε Unit} {cond : Tail → Prop} {p : α → Prop}
    (h : read.Accepts P) (hcheck : check.Checks cond)
    (hcond : ∀ t a bytes t', P a bytes → t.Split bytes t' → (cond t ↔ p a)) :
    Accepts (check >>= fun _ => read) fun a bytes => p a ∧ P a bytes := by
  intro t a t'
  rw [bind_eq_ok_iff]
  constructor
  · rintro ⟨u, s, hs, hread⟩
    obtain ⟨hc, rfl⟩ := (hcheck t u s).mp hs
    obtain ⟨bytes, hP, hsplit⟩ := (h s a t').mp hread
    exact ⟨bytes, ⟨(hcond s a bytes t' hP hsplit).mp hc, hP⟩, hsplit⟩
  · rintro ⟨bytes, ⟨hp, hP⟩, hsplit⟩
    have hc := (hcond t a bytes t' hP hsplit).mpr hp
    exact ⟨(), t, (hcheck t () t).mpr ⟨hc, rfl⟩, (h t a t').mpr ⟨bytes, hP, hsplit⟩⟩

end Accepts

/-! ## The readers of the wire layer -/

lemma take_accepts (field : String) (n : Nat) :
    (take field n).Accepts fun value bytes => value = bytes ∧ bytes.length = n := by
  intro t value t'
  rw [take_eq_ok_iff]
  constructor
  · rintro ⟨hlen, hsplit⟩
    exact ⟨value, ⟨rfl, hlen⟩, hsplit⟩
  · rintro ⟨bytes, ⟨rfl, hlen⟩, hsplit⟩
    exact ⟨hlen, hsplit⟩

/-- A counter is read exactly as it is written. -/
lemma takeCounter_accepts (c : Counter) :
    (takeCounter c).Accepts fun value bytes => c.encode value = .ok bytes := by
  intro t value t'
  rw [takeCounter_eq_ok_iff]
  simp only [Counter.encode_eq_ok_iff]
  constructor
  · rintro ⟨bytes, hlen, hsplit, rfl⟩
    rw [← hlen]
    exact ⟨bytes, ⟨BigEndian.toNat_lt bytes, BigEndian.ofNat_toNat bytes⟩, hsplit⟩
  · rintro ⟨_, ⟨hlt, rfl⟩, hsplit⟩
    exact ⟨_, BigEndian.length_ofNat c.width value, hsplit, (BigEndian.toNat_ofNat_of_lt hlt).symm⟩

lemma require_checks (field : String) (count size : Nat) :
    (require field count size).Checks fun t => count * size ≤ t.remaining :=
  fun _ _ _ => require_eq_ok_iff

lemma Checks.mapError {read : Reader ε Unit} {cond : Tail → Prop} (h : read.Checks cond)
    (f : ε → ε') : (mapError f read).Checks cond := by
  intro t u t'
  rw [mapError_eq_ok_iff, h t u t']

/-- Asking for room before a reader changes nothing, when what it reads takes that room. -/
lemma Accepts.roomy {read : Reader ε α} {P : Form α} {check : Reader ε Unit} {n : Nat}
    (h : read.Accepts P) (hcheck : check.Checks fun t => n ≤ t.remaining)
    (hlen : ∀ a bytes, P a bytes → n ≤ bytes.length) :
    Accepts (check >>= fun _ => read) P := by
  have hroom : ∀ (t : Tail) a bytes t', P a bytes → t.Split bytes t' →
      (n ≤ t.remaining ↔ True) := fun t a bytes t' hP hsplit =>
    iff_true_intro (Nat.le_trans (hlen a bytes hP) hsplit.length_le)
  exact (h.checked hcheck hroom).congr fun a bytes => and_iff_right trivial

lemma ofExcept_accepts {result : Except ε α} :
    Accepts (ofExcept result) fun a bytes => result = .ok a ∧ bytes = [] := by
  cases result with
  | ok a => exact (Accepts.pure a).congr fun b bytes => by simp [eq_comm]
  | error e => exact (Accepts.throw e).congr fun b bytes => by simp

/-- A field of `n` bytes that stands for a value by `ofBytes`, and for each value by the bytes
that `toBytes` gives. -/
lemma Accepts.field {γ : Type} (name : String) {n : Nat} {ofBytes : List UInt8 → Except WireError γ}
    {toBytes : γ → List UInt8} (hbytes : ∀ bs a, ofBytes bs = .ok a ↔ bs = toBytes a)
    (hlen : ∀ a, (toBytes a).length = n) {next : γ → Reader WireError β} {R : γ → Form β}
    (hnext : ∀ a, (next a).Accepts (R a)) :
    Accepts (take name n >>= fun bs => ofExcept (ofBytes bs) >>= next) fun b bytes =>
      ∃ a front, R a b front ∧ bytes = front ++ toBytes a := by
  refine ((take_accepts name n).bind fun bs => ofExcept_accepts.bind hnext).congr fun b bytes => ?_
  simp only [hbytes]
  constructor
  · rintro ⟨_, _, back, ⟨rfl, _⟩, ⟨a, front, _, ⟨rfl, rfl⟩, hR, rfl⟩, rfl⟩
    exact ⟨a, front, hR, by rw [List.append_nil]⟩
  · rintro ⟨a, front, hR, rfl⟩
    exact ⟨_, front, _, ⟨rfl, hlen a⟩, ⟨a, front, [], ⟨rfl, rfl⟩, hR, by rw [List.append_nil]⟩, rfl⟩

/-- The loop behind `times`: the items of `done` have been read already. -/
lemma times_go_accepts {read : Reader ε α} {P : Form α} (h : read.Accepts P) (n : Nat)
    (done : List α) :
    (times.go read n done).Accepts fun items bytes =>
      ∃ new, items = new ++ done ∧ new.length = n ∧ P.many new bytes := by
  induction n generalizing done with
  | zero =>
    refine (Accepts.pure done).congr fun items bytes => ?_
    constructor
    · rintro ⟨rfl, rfl⟩
      exact ⟨[], rfl, rfl, rfl⟩
    · rintro ⟨new, rfl, hlen, hmany⟩
      obtain rfl := List.eq_nil_of_length_eq_zero hlen
      exact ⟨rfl, hmany⟩
  | succ n ih =>
    -- the item that is read now is the last one of those that are new
    refine (h.bind fun item => ih (item :: done)).congr fun items bytes => ?_
    constructor
    · rintro ⟨item, front, back, hitem, ⟨new, rfl, hlen, hmany⟩, rfl⟩
      refine ⟨new ++ [item], by simp, by simp [hlen], ?_⟩
      exact Form.many_concat.mpr ⟨front, back, hmany, hitem, rfl⟩
    · rintro ⟨new, rfl, hlen, hmany⟩
      obtain rfl | ⟨new, item, rfl⟩ := List.eq_nil_or_concat new
      · cases hlen
      rw [List.concat_eq_append] at *
      obtain ⟨front, back, hfront, hitem, rfl⟩ := Form.many_concat.mp hmany
      exact ⟨item, front, back, hitem, ⟨new, by simp, by simpa using hlen, hfront⟩, rfl⟩

/-- A counted loop reads the items one behind the other, in the order of the buffer. -/
lemma times_accepts {read : Reader ε α} {P : Form α} (h : read.Accepts P) (n : Nat) :
    (times n read).Accepts fun items bytes => items.length = n ∧ P.many items bytes := by
  refine (times_go_accepts h n []).congr fun items bytes => ?_
  simp

end Reader
end SignedFeeds
