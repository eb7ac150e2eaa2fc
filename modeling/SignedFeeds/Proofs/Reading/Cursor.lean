/-
# A buffer and a position in it

A buffer that is read from its end can be held as it is, with a word that says how many of its
bytes, from the left, are unread.  A call then moves the position, and computes where to with words of 64
bits: a difference or a product is checked before it is used (`Cursor.minus?`, `Cursor.times?`),
since the sizes may come from a hostile buffer.  This comes to the same as a tail, which has no
position and no bounds: each call gives the same answer at the same place (`Cursor.scan_eq`).

The main result is what any run of calls keeps: the bytes that were taken, last call first, stand
behind those that were not, and together they are the buffer.
-/
import SignedFeeds.Proofs.Bytes.Words
import SignedFeeds.Proofs.Reading.Runs

namespace SignedFeeds

/-- A position in a buffer that is read from its end. -/
structure Cursor where
  /-- The whole buffer. -/
  buffer : List UInt8
  /-- How many bytes, from the left, are not yet read. -/
  stop : UInt64
  /-- The buffer has so many bytes. -/
  stop_le : stop.toNat ≤ buffer.length
  /-- A word can tell the length of the buffer. -/
  length_lt : buffer.length < 2 ^ 64

namespace Cursor

/-- The end of a buffer. -/
def ofBytes (buffer : List UInt8) (h : buffer.length < 2 ^ 64) : Cursor :=
  ⟨buffer, UInt64.ofNat buffer.length, Nat.le_of_eq (UInt64.toNat_ofNat_of_lt' h), h⟩

/-- How many bytes are not yet read. -/
def remaining (c : Cursor) : UInt64 := c.stop

/-- How many bytes have been read. -/
def consumed (c : Cursor) : UInt64 := UInt64.ofNat c.buffer.length - c.stop

/-- The bytes in front of the position. -/
def front (c : Cursor) : List UInt8 := c.buffer.take c.stop.toNat

/-- The bytes between a place further to the left and the position. -/
def back (c : Cursor) (start : UInt64) : List UInt8 := c.front.drop start.toNat

/-- The difference of two words, if it is one. -/
def minus? (a b : UInt64) : Option UInt64 := if b ≤ a then some (a - b) else none

/-- The product of two words, if it is one. -/
def times? (a b : UInt64) : Option UInt64 :=
  if a.toNat * b.toNat < 2 ^ 64 then some (a * b) else none

lemma minus?_eq_some {a b d : UInt64} (h : minus? a b = some d) : d.toNat + b.toNat = a.toNat := by
  rw [minus?] at h
  split_ifs at h with hle
  obtain rfl := Option.some.inj h
  rw [UInt64.toNat_sub_of_le _ _ hle]
  exact Nat.sub_add_cancel hle

lemma le_of_minus? {a b d : UInt64} (h : minus? a b = some d) : d.toNat ≤ a.toNat := by
  rw [← minus?_eq_some h]
  exact Nat.le_add_right _ _

lemma minus?_eq_none_iff {a b : UInt64} : minus? a b = none ↔ a.toNat < b.toNat := by
  rw [minus?]
  split_ifs with hle
  · exact iff_of_false (by rintro ⟨⟩) (Nat.not_lt.mpr hle)
  · exact iff_of_true rfl (Nat.not_le.mp hle)

lemma times?_eq_some {a b d : UInt64} (h : times? a b = some d) : d.toNat = a.toNat * b.toNat := by
  rw [times?] at h
  split_ifs at h with hlt
  obtain rfl := Option.some.inj h
  rw [UInt64.toNat_mul, Nat.mod_eq_of_lt hlt]

lemma times?_eq_none_iff {a b : UInt64} : times? a b = none ↔ 2 ^ 64 ≤ a.toNat * b.toNat := by
  rw [times?]
  split_ifs with hlt
  · exact iff_of_false (by rintro ⟨⟩) (Nat.not_le.mpr hlt)
  · exact iff_of_true rfl (Nat.not_lt.mp hlt)

/-! ## Steps -/

/-- A step that moves the position. -/
abbrev Step := EStateM WireError Cursor

/-- The cursor at a place further to the left. -/
def moveTo (c : Cursor) (start : UInt64) (h : start.toNat ≤ c.stop.toNat) : Cursor :=
  ⟨c.buffer, start, Nat.le_trans h c.stop_le, c.length_lt⟩

/-- Takes the last unread bytes and moves the position in front of them. -/
def take (field : String) (n : UInt64) : Step (List UInt8) := fun c =>
  match h : minus? c.stop n with
  | none => .error (.truncated field n.toNat c.stop.toNat) c
  | some start => .ok (c.back start) (c.moveTo start (le_of_minus? h))

/-- Takes a number. -/
def takeNumber (field : String) (width : UInt64) : Step UInt64 := Word.ofBytes <$> take field width

/-- The size that a number stands for, if it is one. -/
def size? (value : UInt64) : Option UInt64 :=
  if value.toNat ≤ Tail.maxSize then some value else none

/-- Takes a number that is to be a size. -/
def takeCount (field : String) (width : UInt64) : Step UInt64 := do
  let value ← takeNumber field width
  match size? value with
  | some size => return size
  | none => throw (.truncated field Tail.maxSize (← get).stop.toNat)

/-- The last unread bytes, if there are so many. -/
def peek? (c : Cursor) (n : UInt64) : Option (List UInt8) := (minus? c.stop n).map c.back

/-- Fails unless there is room for so many items of this size. -/
def require (field : String) (items size : UInt64) : Step Unit := fun c =>
  match times? items size with
  | none => .error (.truncated field Tail.maxSize c.stop.toNat) c
  | some needed =>
    if c.stop < needed then .error (.truncated field needed.toNat c.stop.toNat) c else .ok () c

end Cursor

namespace Call

/-- The call on a cursor. -/
def scan : Call → Cursor.Step Answer
  | take field size => .bytes <$> Cursor.take field size
  | number field width => (fun w => .number w.toNat) <$> Cursor.takeNumber field (.ofNat width)
  | count field width => (fun w => .number w.toNat) <$> Cursor.takeCount field (.ofNat width)
  | peek size => fun c => .ok (.seen (c.peek? size)) c
  | require field items size => (fun _ => .room) <$> Cursor.require field items size

end Call

namespace Cursor

/-- The cursor behind a run of calls.  A call that fails does not end the run. -/
def after (c : Cursor) (calls : List Call) : Cursor :=
  calls.foldl (fun c call => (outcome call.scan c).2) c

/-! ## A cursor as a tail -/

/-- The tail with the same unread bytes. -/
def tail (c : Cursor) : Tail := ⟨c.front.reverse, c.buffer.length - c.stop.toNat⟩

variable {c : Cursor} {n start : UInt64} {field : String}

@[simp] lemma rest_tail (c : Cursor) : c.tail.rest = c.front := by simp [tail, Tail.rest]

lemma length_front (c : Cursor) : c.front.length = c.stop.toNat :=
  List.length_take_of_le c.stop_le

@[simp] lemma remaining_tail (c : Cursor) : c.tail.remaining = c.stop.toNat := by
  rw [← Tail.length_rest, rest_tail, length_front]

lemma tail_ofBytes (buffer : List UInt8) (h : buffer.length < 2 ^ 64) :
    (ofBytes buffer h).tail = Tail.ofBytes buffer := by
  have hstop : (ofBytes buffer h).stop.toNat = buffer.length := UInt64.toNat_ofNat_of_lt' h
  rw [tail, front, hstop, Tail.ofBytes]
  simp [ofBytes]

lemma toNat_consumed (c : Cursor) : c.consumed.toNat = c.tail.consumed := by
  have hlen : (UInt64.ofNat c.buffer.length).toNat = c.buffer.length :=
    UInt64.toNat_ofNat_of_lt' c.length_lt
  have hle : c.stop ≤ UInt64.ofNat c.buffer.length := by
    rw [UInt64.le_iff_toNat_le, hlen]
    exact c.stop_le
  rw [consumed, UInt64.toNat_sub_of_le _ _ hle, hlen, tail]

/-- The bytes behind a place further to the left are the end of the unread ones. -/
lemma peek?_tail (h : minus? c.stop n = some start) :
    c.tail.peek? n.toNat = some (c.back start) := by
  have hadd := minus?_eq_some h
  refine Tail.peek?_eq_some_iff.mpr ⟨?_, c.front.take start.toNat, ?_⟩
  · rw [back, List.length_drop, length_front]
    omega
  · rw [rest_tail, back, List.take_append_drop]

lemma peek?_eq (c : Cursor) (n : UInt64) : c.peek? n = c.tail.peek? n.toNat := by
  rw [peek?]
  cases h : minus? c.stop n with
  | none =>
    rw [minus?_eq_none_iff, ← remaining_tail] at h
    rw [Tail.peek?_eq_none_iff.mpr h]
    rfl
  | some start =>
    rw [peek?_tail h]
    rfl

/-- The bytes up to a new position are those that it leaves behind. -/
lemma split_moveTo (c : Cursor) (start : UInt64) (h : start.toNat ≤ c.stop.toNat) :
    c.tail.Split (c.back start) (c.moveTo start h).tail := by
  refine ⟨?_, ?_⟩
  · have hfront : (c.moveTo start h).front = c.front.take start.toNat := by
      rw [front, front, List.take_take, Nat.min_eq_left h]
      rfl
    rw [rest_tail, rest_tail, hfront, back, List.take_append_drop]
  · have hlen : (c.back start).length = c.stop.toNat - start.toNat := by
      rw [back, List.length_drop, length_front]
    have hstop := c.stop_le
    show c.buffer.length - start.toNat = c.buffer.length - c.stop.toNat + (c.back start).length
    omega

/-! ## Steps as readers -/

/-- The step ends as the reader does, and at the same place. -/
def Agrees {α : Type} (step : Step α) (read : Reader WireError α) : Prop :=
  ∀ c : Cursor, outcome read c.tail = ((outcome step c).1, (outcome step c).2.tail)

lemma Agrees.map {α β : Type} {step : Step α} {read : Reader WireError α} (h : Agrees step read)
    (f : α → β) : Agrees (f <$> step) (f <$> read) := by
  intro c
  rw [outcome_map, outcome_map, h c]

lemma take_agrees (field : String) (n : UInt64) :
    Agrees (take field n) (Reader.take field n.toNat) := by
  intro c
  have htake : (minus? c.stop n = none ∧
      take field n c = .error (.truncated field n.toNat c.stop.toNat) c) ∨
      ∃ start, ∃ h : minus? c.stop n = some start,
        take field n c = .ok (c.back start) (c.moveTo start (le_of_minus? h)) := by
    rw [take]
    split
    · next h => exact .inl ⟨h, rfl⟩
    · next start h => exact .inr ⟨start, h, rfl⟩
  rcases htake with ⟨h, htake⟩ | ⟨start, h, htake⟩
  · rw [minus?_eq_none_iff, ← remaining_tail] at h
    rw [outcome, outcome, htake, Reader.take, Tail.peek?_eq_none_iff.mpr h]
    simp only [remaining_tail]
  · obtain ⟨hlen, -⟩ := Tail.peek?_eq_some_iff.mp (peek?_tail h)
    rw [outcome, outcome, htake,
      Reader.take_eq_ok_iff.mpr ⟨hlen, split_moveTo c start (le_of_minus? h)⟩]

/-- All words are sizes. -/
lemma takeCount_eq (field : String) (width : UInt64) :
    takeCount field width = takeNumber field width := by
  have hsize (value : UInt64) : size? value = some value :=
    if_pos (Nat.le_of_lt_succ value.toNat_lt)
  simp only [takeCount, hsize, bind_pure]

/-- Shifted into a word, the bytes of the field are its number. -/
lemma takeNumber_agrees (field : String) (width : Fin 9) :
    Agrees (UInt64.toNat <$> takeNumber field (.ofNat width))
      (Reader.takeCounter ⟨field, width⟩) := by
  intro c
  have hwidth : (UInt64.ofNat width).toNat = width :=
    UInt64.toNat_ofNat_of_lt' (Nat.lt_trans width.isLt (by decide))
  have htake := take_agrees field (.ofNat width) c
  rw [hwidth] at htake
  rw [takeNumber, outcome_map, outcome_map, Reader.takeCounter, outcome_map]
  simp only [htake]
  refine Prod.ext ?_ rfl
  have hfirst := congrArg Prod.fst htake
  dsimp only at hfirst ⊢
  rw [← hfirst, outcome]
  rcases Reader.take_cases field width c.tail with ⟨bytes, hlen, -, hread⟩ | ⟨-, hread⟩
  · have hshort : bytes.length ≤ 8 := by
      rw [hlen]
      exact Nat.le_of_lt_succ width.isLt
    rw [hread]
    exact congrArg Except.ok (Word.toNat_ofBytes hshort).symm
  · rw [hread]
    rfl

lemma require_agrees (field : String) (items size : UInt64) :
    Agrees (require field items size) (Reader.require field items.toNat size.toNat) := by
  intro c
  have hroom (needed : ℕ) : c.tail.holds needed = true ↔ needed ≤ c.stop.toNat := by
    rw [Tail.holds_iff, remaining_tail]
  rw [outcome, outcome, require, Reader.require]
  cases h : times? items size with
  | none =>
    -- so large a product is above the length of any buffer
    rw [times?_eq_none_iff] at h
    have hstop := c.stop.toNat_lt
    have hmax : Tail.maxSize ≤ items.toNat * size.toNat := Nat.le_of_succ_le h
    rw [if_neg (by rw [hroom]; omega), Nat.min_eq_right hmax]
    simp only [remaining_tail]
  | some needed =>
    have hneeded := times?_eq_some h
    have hmax : needed.toNat ≤ Tail.maxSize := Nat.le_of_lt_succ needed.toNat_lt
    rw [← hneeded, Nat.min_eq_left hmax]
    by_cases hfits : c.stop < needed
    · rw [if_neg (by rw [hroom]; exact Nat.not_le.mpr hfits)]
      simp only [hfits, if_true, remaining_tail]
    · have hle : needed.toNat ≤ c.stop.toNat := Nat.not_lt.mp hfits
      rw [if_pos ((hroom _).mpr hle)]
      simp only [hfits, if_false]

lemma scan_agrees (call : Call) : Agrees call.scan call.read := by
  cases call with
  | take field size => exact (take_agrees field size).map _
  | number field width =>
    have h := (takeNumber_agrees field width).map Answer.number
    rwa [Functor.map_map] at h
  | count field width =>
    have h := (takeNumber_agrees field width).map Answer.number
    rw [Functor.map_map, ← takeCount_eq] at h
    exact h
  | peek size =>
    intro c
    show (_, c.tail) = (Except.ok (Answer.seen (c.peek? size)), c.tail)
    rw [peek?_eq]
  | require field items size => exact (require_agrees field items size).map _

/-- A call gives the same answer, and leaves the same bytes unread. -/
lemma scan_eq (call : Call) (c : Cursor) :
    (outcome call.scan c).1 = call.answer c.tail ∧
      (outcome call.scan c).2.tail = call.next c.tail :=
  have hscan := scan_agrees call c
  ⟨(congrArg Prod.fst hscan).symm, (congrArg Prod.snd hscan).symm⟩

/-- A run of calls leaves the same bytes unread. -/
lemma tail_after (c : Cursor) (calls : List Call) : (after c calls).tail = c.tail.after calls := by
  induction calls generalizing c with
  | nil => rfl
  | cons call calls ih =>
    show (after (outcome call.scan c).2 calls).tail = (call.next c.tail).after calls
    rw [ih, (scan_eq call c).2]

lemma tail_after_ofBytes (buffer : List UInt8) (h : buffer.length < 2 ^ 64) (calls : List Call) :
    ((ofBytes buffer h).after calls).tail = (Tail.ofBytes buffer).after calls := by
  rw [tail_after, tail_ofBytes]

end Cursor

/-! ## Whole runs of calls -/

namespace Tail

/-- **What a run of calls takes off and what it leaves are the buffer.**  At every place that a run
reaches, the bytes read and unread are as many as the buffer has, the unread bytes are its first
ones, and behind them stands what the calls took off, last call first.  There a call that fails
leaves everything as it is, and so do a look at the end and a request for room.  A field is taken
off exactly if there are so many bytes, it is what a look at the end shows, and its number is that
of these bytes; there is room for items exactly if the true product of their number and size is at
most the number of unread bytes.  A position in the buffer that is computed with words of 64 bits
gives the same answers at the same places. -/
theorem runs_account_for_buffer (buffer : List UInt8) (calls : List Call) :
    let t := (Tail.ofBytes buffer).after calls
    (t.consumed + t.remaining = buffer.length ∧
      t.rest = buffer.take t.remaining ∧
      t.rest ++ ((Tail.ofBytes buffer).slices calls).reverse.flatten = buffer) ∧
    ((∀ call e, Call.answer call t = .error e → call.next t = t) ∧
      (∀ size, (Call.peek size).next t = t) ∧
      (∀ field items size, (Call.require field items size).next t = t)) ∧
    ((∀ field size,
        (∃ e, (Call.take field size).answer t = .error e) ↔ t.remaining < size.toNat) ∧
      (∀ size, (Call.peek size).answer t = .ok (.seen none) ↔ t.remaining < size.toNat) ∧
      (∀ field size bytes, (Call.peek size).answer t = .ok (.seen (some bytes)) ↔
        (Call.take field size).answer t = .ok (.bytes bytes)) ∧
      (∀ call field n a, Call.field? call = some (field, n) → (call.answer t = .ok a ↔
        t.peek? n = some (call.slice t) ∧ a = call.ofBytes (call.slice t))) ∧
      (∀ field items size, (Call.require field items size).answer t = .ok .room ↔
        items.toNat * size.toNat ≤ t.remaining)) ∧
    ∀ h : buffer.length < 2 ^ 64,
      let c := (Cursor.ofBytes buffer h).after calls
      c.remaining.toNat = t.remaining ∧ c.consumed.toNat = t.consumed ∧ c.front = t.rest ∧
        ∀ call, (outcome (Call.scan call) c).1 = call.answer t ∧
          (outcome call.scan c).2.tail = call.next t := by
  intro t
  refine ⟨⟨?_, ?_, ?_⟩, ⟨?_, ?_, ?_⟩, ⟨?_, ?_, ?_, ?_, ?_⟩, ?_⟩
  · exact consumed_add_remaining_after buffer calls
  · exact rest_after buffer calls
  · exact rest_after_append_slices buffer calls
  · exact fun _ _ herror => Call.next_of_answer_eq_error herror
  · exact fun _ => Call.next_of_field?_eq_none rfl
  · exact fun _ _ _ => Call.next_of_field?_eq_none rfl
  · exact fun _ _ => Call.exists_answer_eq_error_iff rfl
  · exact Call.answer_peek_eq_none_iff
  · exact Call.answer_peek_iff_answer_take
  · exact fun _ _ _ _ hfield => Call.answer_eq_ok_iff hfield
  · exact Call.answer_require_eq_ok_iff
  · intro h c
    have htail : c.tail = t := Cursor.tail_after_ofBytes buffer h calls
    refine ⟨?_, ?_, ?_, fun call => ?_⟩
    · rw [← htail, Cursor.remaining_tail, Cursor.remaining]
    · rw [← htail, Cursor.toNat_consumed]
    · rw [← htail, Cursor.rest_tail]
    · rw [← htail]
      exact Cursor.scan_eq call c

theorem runs_account_for_buffer_sample :
    let buffer : List UInt8 := [1, 2, 3, 4, 5]
    let calls : List Call := [.take "a" 2, .take "b" 9, .number "n" 2, .peek 3]
    let t := (Tail.ofBytes buffer).after calls
    (t.rest ++ [[4, 5], [], [2, 3], []].reverse.flatten = buffer ∧ t.rest = [1]) ∧
      ((Call.take "d" 2).answer t = .error (.truncated "d" 2 1) ∧
        (Call.take "d" 2).next t = t) ∧
      (t.peek? 1 = some [1] ∧ (Call.count "e" 1).answer t = .ok (.number 1)) ∧
      ((0x8000000000000000 * 2 : UInt64) = 0 ∧
        (Call.require "f" 0x8000000000000000 2).answer t ≠ .ok .room) ∧
      ∃ h : buffer.length < 2 ^ 64,
        ((Cursor.ofBytes buffer h).after calls).remaining.toNat = 1 := by
  intro buffer calls t
  have hslices : (Tail.ofBytes buffer).slices calls = [[4, 5], [], [2, 3], []] := by
    decide +kernel
  have hremaining : t.remaining = 1 := by decide +kernel
  have hlength : buffer.length < 2 ^ 64 := by decide
  have htake : (Call.take "d" 2).answer t = .error (.truncated "d" 2 1) := by
    decide +kernel
  have hcount : t.peek? 1 = some [1] := by decide +kernel
  obtain ⟨⟨-, htaken, hbuffer⟩, ⟨herror, -⟩, ⟨-, -, -, hfield, hroom⟩, hcursor⟩ :=
    runs_account_for_buffer buffer calls
  refine ⟨⟨hslices ▸ hbuffer, ?_⟩, ⟨htake, herror _ _ htake⟩, ⟨hcount, ?_⟩, ⟨by decide +kernel, ?_⟩,
    hlength, (hcursor hlength).1.trans hremaining⟩
  · exact htaken.trans (by rw [hremaining]; rfl)
  · exact (hfield (.count "e" 1) "e" 1 _ rfl).mpr ⟨by decide +kernel, by decide +kernel⟩
  · rw [ne_eq, hroom, hremaining]
    decide +kernel

end Tail
end SignedFeeds
