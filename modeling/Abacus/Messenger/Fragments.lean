import Abacus.Library.Bytes
import Abacus.Library.Split
import Mathlib.Data.Nat.Bitwise
import Mathlib.Algebra.Order.BigOperators.Group.List

/-! # Fragments of a message over UDP

The number of fragments is kept in sixteen bits, and the top bit of a fragment's number says that it is the
last one. The fragments are sent in a random order.
-/

namespace Abacus.Messenger.Fragments

open Library Library.Bytes

def minFragmentSize : Nat := 200

/-- `BUFFER_SIZE - sizeof(st_frame) + 1`: what the buffer of a frame has room for. -/
def maxFragmentSize : Nat := 1408 - 19 + 1

structure Settings where
  maxSize : Nat
  checksumSeed : Nat
  min_le : minFragmentSize ≤ maxSize
  le_max : maxSize ≤ maxFragmentSize

/-- The configured size is put into sixteen bits before it is brought into the range. -/
def startup (maxfragmentsize : Int) (checksumseed : Nat) : Settings where
  maxSize := max minFragmentSize (min (maxfragmentsize % 65536).toNat maxFragmentSize)
  checksumSeed := checksumseed
  min_le := Nat.le_max_left _ _
  le_max := Nat.max_le.mpr ⟨by decide, Nat.min_le_right _ _⟩

/-- A frame with the data that the packet holds. In an acknowledgement the length is the number of the acknowledging
server. -/
structure Frame where
  serverId : Nat
  messageId : Nat
  fragmentNum : Nat
  fragmentLen : Nat
  dataChecksum : Nat
  data : Str
  deriving DecidableEq

def Frame.key (f : Frame) : Nat × Nat := (f.serverId, f.messageId)

def Frame.number (f : Frame) : Nat := f.fragmentNum &&& (2 ^ 15 - 1)

def Frame.lastfragment (f : Frame) : Bool := f.fragmentNum &&& 2 ^ 15 ≠ 0

/-- Whole words are taken in the order of the machine, the bytes after them in the other. -/
def checksum (sum : Nat) : Str → Nat
  | a :: b :: c :: d :: rest =>
    checksum (sum ^^^ (a.toNat + 256 * b.toNat + 65536 * c.toNat + 16777216 * d.toNat)) rest
  | rest => sum ^^^ rest.foldl (fun last byte => last * 256 + byte.toNat) 0

/-- A message that is to be sent. There is no blob when `getBlob` fails. -/
structure Outgoing where
  serverId : Nat
  messageId : Nat
  blob : Option Str

def Outgoing.key (m : Outgoing) : Nat × Nat := (m.serverId, m.messageId)

inductive Fault
  | divisionByZero
  /-- A fragment does not fit into the buffer of a frame. -/
  | overflow
  /-- The loop has not ended within the given number of rounds. -/
  | running
  deriving DecidableEq

structure Shuffle where
  order : List Nat → List Nat
  perm : ∀ l, (order l).Perm l

section

variable (s : Settings) (shuffle : Shuffle) (m : Outgoing) {n i len : Nat}

/-- The sum is one of words, and its quotient is put into sixteen bits. -/
def numfrags (messageLen : Nat) : Nat := wrap32 (messageLen + s.maxSize - 1) / s.maxSize % 65536

/-- `for (uint16_t i = 1; i <= numfrags; ++i)`, from a given `i` on. -/
def fragnums (numfrags : Nat) : Nat → Nat → Option (List Nat)
  | 0, _ => none
  | rounds + 1, i =>
    if i ≤ numfrags then (fragnums numfrags rounds ((i + 1) % 65536)).map (i :: ·) else some []

/-- The fragment with the number `i`. The offset stays below the length of the blob, so it is no sum modulo `2 ^ 32`. -/
def fragment (blob : Str) (numfrags i : Nat) : Frame :=
  let baseFragSize := blob.length / numfrags
  let numLargeFrags := blob.length % numfrags
  let fragmentLen := baseFragSize + if i ≤ numLargeFrags then 1 else 0
  let data := (blob.drop (baseFragSize * (i - 1) + min (i - 1) numLargeFrags)).take fragmentLen
  { serverId := m.serverId
    messageId := m.messageId
    fragmentNum := if i = numfrags then i ||| 2 ^ 15 else i
    fragmentLen
    dataChecksum := checksum s.checksumSeed (data.take (fragmentLen % 65536))
    data }

/-- A frame that cannot be transmitted is only logged. -/
def sendFragment (blob : Str) (numfrags i : Nat) : Except Fault Frame :=
  let f := fragment s m blob numfrags i
  if f.fragmentLen ≤ maxFragmentSize then return f else throw .overflow

/-- What `sendMessage` returns and the frames that were sent. The test for too many fragments looks at the top bit of a
word, and the number has sixteen bits. -/
def sendMessage (rounds : Nat) (dest : Bool) : Except Fault (Bool × List Frame) :=
  match m.blob with
  | none => return (false, [])
  | some blob =>
    if blob.length = 0 then return (false, [])
    else if !dest then return (false, [])
    else
      let numfrags := numfrags s blob.length
      if numfrags = 0 then throw .divisionByZero
      else if numfrags &&& 2 ^ 31 ≠ 0 then return (false, [])
      else
        match fragnums numfrags rounds 1 with
        | none => throw .running
        | some nums => do
          let frames ← (shuffle.order nums).mapM (sendFragment s m blob numfrags)
          return (true, frames)

theorem and_top_of_lt (h : i < 2 ^ 15) : i &&& 2 ^ 15 = 0 := by
  rw [Nat.and_two_pow, Nat.testBit_lt_two_pow h]
  rfl

theorem or_top_of_lt (h : i < 2 ^ 15) : i ||| 2 ^ 15 = 2 ^ 15 + i := by
  have hor : 2 ^ 15 * 1 + i = 2 ^ 15 * 1 ||| i := Nat.two_pow_add_eq_or_of_lt h 1
  rw [Nat.lor_comm]
  exact hor.symm

theorem Frame.number_lt (f : Frame) : f.number < 2 ^ 15 := by
  rw [Frame.number, Nat.and_two_pow_sub_one_eq_mod]
  exact Nat.mod_lt _ (by decide)

theorem fragnums_eq_some (hn : n < 65535) (k rounds i : Nat) (hi : i + k = n + 1) (hrounds : k < rounds) :
    fragnums n rounds i = some (List.range' i k) := by
  induction k generalizing rounds i with
  | zero =>
    obtain ⟨rounds, rfl⟩ : ∃ r, rounds = r + 1 := ⟨rounds - 1, by omega⟩
    rw [fragnums, if_neg (by omega)]
    rfl
  | succ k ih =>
    obtain ⟨rounds, rfl⟩ : ∃ r, rounds = r + 1 := ⟨rounds - 1, by omega⟩
    have hnext : (i + 1) % 65536 = i + 1 := Nat.mod_eq_of_lt (by omega)
    rw [fragnums, if_pos (by omega), hnext, ih rounds (i + 1) (by omega) (by omega)]
    rfl

/-- With `65535` fragments the counter starts over before it passes their number. -/
theorem fragnums_eq_none (rounds i : Nat) (hi : i < 65536) : fragnums 65535 rounds i = none := by
  induction rounds generalizing i with
  | zero => rfl
  | succ rounds ih =>
    rw [fragnums, if_pos (by omega), ih _ (Nat.mod_lt _ (by decide))]
    rfl

theorem eq_of_fragnums (hn : n < 65535) {k rounds i : Nat} {nums : List Nat} (hi : i + k = n + 1)
    (h : fragnums n rounds i = some nums) : nums = List.range' i k := by
  induction rounds generalizing i k nums with
  | zero => cases h
  | succ rounds ih =>
    rw [fragnums] at h
    split at h
    · obtain ⟨rest, hrest, rfl⟩ := Option.map_eq_some_iff.mp h
      obtain ⟨k, rfl⟩ : ∃ j, k = j + 1 := ⟨k - 1, by omega⟩
      have hnext : i + 1 + k = n + 1 := by omega
      rw [Nat.mod_eq_of_lt (by omega)] at hrest
      rw [ih hnext hrest]
      rfl
    · obtain rfl : k = 0 := by omega
      exact (Option.some.inj h).symm

theorem Settings.pos : 0 < s.maxSize := Nat.lt_of_lt_of_le (by decide) s.min_le

theorem numfrags_lt : numfrags s len < 65536 := Nat.mod_lt _ (by decide)

theorem numfrags_le (h : 0 < len) : numfrags s len ≤ len := by
  have hpos : 0 < s.maxSize := s.pos
  have hwrap : wrap32 (len + s.maxSize - 1) ≤ len + s.maxSize - 1 := Nat.mod_le _ _
  have hdiv : wrap32 (len + s.maxSize - 1) / s.maxSize ≤ len := by
    apply Nat.div_le_of_le_mul
    rw [Nat.mul_comm]
    exact hwrap.trans (Nat.add_sub_one_le_mul h.ne' hpos.ne')
  exact (Nat.mod_le _ _).trans hdiv

theorem numfrags_and : numfrags s len &&& 2 ^ 31 = 0 := by
  have hlt : numfrags s len < 2 ^ 31 := (numfrags_lt s).trans (by decide)
  rw [Nat.and_two_pow, Nat.testBit_lt_two_pow hlt]
  rfl

theorem numfrags_eq (h : len ≤ 32767 * s.maxSize) : numfrags s len = (len + s.maxSize - 1) / s.maxSize := by
  have hpos : 0 < s.maxSize := s.pos
  have hmax : s.maxSize ≤ 1390 := s.le_max
  have hwrap : wrap32 (len + s.maxSize - 1) = len + s.maxSize - 1 :=
    wrap32_of_le (le_refl _) (by omega)
  have hdiv : (len + s.maxSize - 1) / s.maxSize < 65536 := by
    rw [Nat.div_lt_iff_lt_mul hpos]
    omega
  rw [numfrags, hwrap, Nat.mod_eq_of_lt hdiv]

theorem le_numfrags_mul (h : len ≤ 32767 * s.maxSize) : len ≤ numfrags s len * s.maxSize := by
  have hpos : 0 < s.maxSize := s.pos
  have hlast : (len + s.maxSize - 1) % s.maxSize < s.maxSize := Nat.mod_lt _ hpos
  have hall : s.maxSize * ((len + s.maxSize - 1) / s.maxSize) + (len + s.maxSize - 1) % s.maxSize =
      len + s.maxSize - 1 := Nat.div_add_mod _ _
  rw [numfrags_eq s h, Nat.mul_comm]
  omega

theorem numfrags_pos (hpos : 0 < len) (h : len ≤ 32767 * s.maxSize) : 0 < numfrags s len := by
  have hle : len ≤ numfrags s len * s.maxSize := le_numfrags_mul s h
  apply Nat.pos_of_ne_zero
  intro hzero
  rw [hzero] at hle
  omega

theorem numfrags_le_of_le (h : len ≤ 32767 * s.maxSize) : numfrags s len ≤ 32767 := by
  have hpos : 0 < s.maxSize := s.pos
  rw [numfrags_eq s h, ← Nat.lt_succ_iff, Nat.div_lt_iff_lt_mul hpos]
  omega

end

variable {frames : List Frame}

section

variable {s : Settings} {m : Outgoing} {blob : Str} {n i : Nat}

theorem fragmentLen_fragment (hi : 0 < i) : (fragment s m blob n i).fragmentLen = Split.size blob.length n (i - 1) := by
  have hiff : i ≤ blob.length % n ↔ i - 1 < blob.length % n := by omega
  simp only [fragment, Split.size, hiff]

theorem data_fragment (hi : 0 < i) : (fragment s m blob n i).data = Split.piece blob n (i - 1) := by
  have hiff : i ≤ blob.length % n ↔ i - 1 < blob.length % n := by omega
  simp only [fragment, Split.piece, Split.start, Split.size, hiff]

theorem length_data_fragment (hi : 0 < i) (hn : i ≤ n) :
    (fragment s m blob n i).data.length = (fragment s m blob n i).fragmentLen := by
  rw [data_fragment hi, Split.length_piece blob (by omega), fragmentLen_fragment hi]

theorem number_fragment (hn : n < 2 ^ 15) (hi : i ≤ n) : (fragment s m blob n i).number = i := by
  have hmod : i % 2 ^ 15 = i := Nat.mod_eq_of_lt (by omega)
  simp only [fragment, Frame.number, Nat.and_two_pow_sub_one_eq_mod]
  split
  · rw [or_top_of_lt (by omega), Nat.add_mod_left, hmod]
  · exact hmod

theorem lastfragment_fragment (hn : n < 2 ^ 15) (hi : i ≤ n) :
    (fragment s m blob n i).lastfragment = true ↔ i = n := by
  have hlt : i < 2 ^ 15 := by omega
  simp only [fragment, Frame.lastfragment]
  split
  case isTrue heq =>
    have htop : (2 ^ 15 + i).testBit 15 = true := by
      rw [Nat.testBit_two_pow_add_eq, Nat.testBit_lt_two_pow hlt]
      rfl
    rw [or_top_of_lt hlt, Nat.and_two_pow, htop]
    exact iff_of_true (by decide) heq
  case isFalse hne =>
    rw [and_top_of_lt hlt]
    exact iff_of_false (by simp) hne

theorem mapM_sendFragment {order : List Nat} :
    order.mapM (sendFragment s m blob n) = .ok frames ↔
      frames = order.map (fragment s m blob n) ∧ ∀ i ∈ order,
        (fragment s m blob n i).fragmentLen ≤ maxFragmentSize := by
  induction order generalizing frames with
  | nil =>
    simp only [List.mapM_nil, List.map_nil, List.not_mem_nil, false_imp_iff, implies_true, and_true]
    exact ⟨fun h => (Except.ok.inj h).symm, fun h => congrArg Except.ok h.symm⟩
  | cons i order ih =>
    rw [List.mapM_cons, List.forall_mem_cons, List.map_cons]
    constructor
    · intro h
      by_cases hlen : (fragment s m blob n i).fragmentLen ≤ maxFragmentSize
      · rw [sendFragment, if_pos hlen] at h
        cases hrest : order.mapM (sendFragment s m blob n) with
        | error e =>
          rw [hrest] at h
          cases h
        | ok rest =>
          rw [hrest] at h
          obtain ⟨hframes, hall⟩ := ih.mp hrest
          exact ⟨(Except.ok.inj h).symm.trans (congrArg _ hframes), hlen, hall⟩
      · rw [sendFragment, if_neg hlen] at h
        cases h
    · rintro ⟨rfl, hlen, hall⟩
      rw [sendFragment, if_pos hlen, ih.mpr ⟨rfl, hall⟩]
      rfl

end

section

variable {s : Settings} {shuffle : Shuffle} {m : Outgoing} {blob : Str} {n rounds : Nat} {frames : List Frame}
  {dest : Bool}

structure Sent (s : Settings) (m : Outgoing) (blob : Str) (n : Nat) (frames : List Frame) : Prop where
  getBlob : m.blob = some blob
  pos : 0 < n
  le_length : n ≤ blob.length
  perm : frames.Perm ((List.range' 1 n).map (fragment s m blob n))
  fits : ∀ f ∈ frames, f.fragmentLen ≤ maxFragmentSize

theorem sendMessage_of_blob (hblob : m.blob = some blob) (hpos : 0 < blob.length) (hn : numfrags s blob.length ≠ 0) :
    sendMessage s shuffle m rounds true =
      match fragnums (numfrags s blob.length) rounds 1 with
      | none => throw .running
      | some nums => do
        let frames ← (shuffle.order nums).mapM (sendFragment s m blob (numfrags s blob.length))
        return (true, frames) := by
  simp only [sendMessage, hblob, Bool.not_true, Bool.false_eq_true, if_false]
  rw [if_neg hpos.ne', if_neg hn, if_neg (not_not.mpr (numfrags_and s))]

theorem sendMessage_of_numfrags_eq_zero (hblob : m.blob = some blob) (hpos : 0 < blob.length)
    (hn : numfrags s blob.length = 0) : sendMessage s shuffle m rounds true = .error .divisionByZero := by
  simp only [sendMessage, hblob, Bool.not_true, Bool.false_eq_true, if_false]
  rw [if_neg hpos.ne', if_pos hn]
  rfl

theorem sendMessage_ok (hblob : m.blob = some blob) (hpos : 0 < blob.length) {r : Bool × List Frame}
    (h : sendMessage s shuffle m rounds true = .ok r) :
    numfrags s blob.length ≠ 0 ∧ ∃ nums, fragnums (numfrags s blob.length) rounds 1 = some nums ∧
      ∃ frames, (shuffle.order nums).mapM (sendFragment s m blob (numfrags s blob.length)) = .ok frames ∧
        r = (true, frames) := by
  have hn : numfrags s blob.length ≠ 0 := by
    intro hzero
    rw [sendMessage_of_numfrags_eq_zero hblob hpos hzero] at h
    cases h
  rw [sendMessage_of_blob hblob hpos hn] at h
  cases hnums : fragnums (numfrags s blob.length) rounds 1 with
  | none =>
    rw [hnums] at h
    cases h
  | some nums =>
    rw [hnums] at h
    cases hframes : (shuffle.order nums).mapM (sendFragment s m blob (numfrags s blob.length)) with
    | error e => simp [hframes, bind, Except.bind] at h
    | ok frames =>
      simp only [hframes, bind, Except.bind, pure, Except.pure, Except.ok.injEq] at h
      exact ⟨hn, nums, rfl, frames, hframes, h.symm⟩

theorem sent_of_sendMessage {dest : Bool} (h : sendMessage s shuffle m rounds dest = .ok (true, frames)) :
    ∃ blob, Sent s m blob (numfrags s blob.length) frames := by
  cases hblob : m.blob with
  | none => simp [sendMessage, hblob, pure, Except.pure] at h
  | some blob =>
    have hpos : 0 < blob.length := by
      apply Nat.pos_of_ne_zero
      intro hzero
      simp [sendMessage, hblob, hzero, pure, Except.pure] at h
    cases dest with
    | false => simp [sendMessage, hblob, hpos.ne', pure, Except.pure] at h
    | true =>
      obtain ⟨hn, nums, hnums, sent, hsent, heq⟩ := sendMessage_ok hblob hpos h
      obtain ⟨-, rfl⟩ := Prod.mk.inj heq
      -- a count of 65535 is out: its loop does not end
      have hlt : numfrags s blob.length < 65535 := by
        have hle : numfrags s blob.length < 65536 := numfrags_lt s
        apply Nat.lt_of_le_of_ne (by omega)
        intro hmax
        rw [hmax, fragnums_eq_none _ _ (by decide)] at hnums
        cases hnums
      obtain rfl : nums = List.range' 1 (numfrags s blob.length) := eq_of_fragnums hlt (by omega) hnums
      obtain ⟨hmap, hfits⟩ := mapM_sendFragment.mp hsent
      refine ⟨blob, hblob, Nat.pos_of_ne_zero hn, numfrags_le s hpos, ?_, ?_⟩
      · rw [hmap]
        exact (shuffle.perm _).map _
      · intro f hf
        rw [hmap] at hf
        obtain ⟨i, hi, rfl⟩ := List.mem_map.mp hf
        exact hfits i hi

theorem Sent.exists_number (h : Sent s m blob n frames) {f : Frame} (hf : f ∈ frames) :
    ∃ i, 0 < i ∧ i ≤ n ∧ f = fragment s m blob n i := by
  obtain ⟨i, hi, rfl⟩ := List.mem_map.mp (h.perm.mem_iff.mp hf)
  rw [List.mem_range'_1] at hi
  exact ⟨i, by omega, by omega, rfl⟩

theorem Sent.fragment_mem (h : Sent s m blob n frames) {i : Nat} (hpos : 0 < i) (hle : i ≤ n) :
    fragment s m blob n i ∈ frames := by
  apply h.perm.mem_iff.mpr
  apply List.mem_map_of_mem
  rw [List.mem_range'_1]
  omega

theorem Sent.length_frames (h : Sent s m blob n frames) : frames.length = n := by
  rw [h.perm.length_eq, List.length_map, List.length_range']

/-- The frames carry the blob: in the order of their numbers, with the last one marked. -/
structure Splits (maxSize : Nat) (blob : Str) (frames ordered : List Frame) : Prop where
  perm : ordered.Perm frames
  numbers : ordered.map Frame.number = List.range' 1 frames.length
  marked : ∀ f ∈ frames, f.lastfragment = true ↔ f.number = frames.length
  lengths : ∀ f ∈ frames, f.data.length = f.fragmentLen ∧ 1 ≤ f.fragmentLen ∧ f.fragmentLen ≤ maxSize
  payload : ordered.flatMap Frame.data = blob

/-- `sendMessage` ends, and it refuses before it sends anything or sends the whole blob. -/
def SendsBlob (s : Settings) (shuffle : Shuffle) (m : Outgoing) (dest : Bool) (blob : Str) : Prop :=
  ∃ rounds, sendMessage s shuffle m rounds dest = .ok (false, []) ∨
    ∃ frames, sendMessage s shuffle m rounds dest = .ok (true, frames) ∧ ∃ ordered, Splits s.maxSize blob frames ordered

theorem Splits.length_le {maxSize : Nat} {ordered : List Frame} (h : Splits maxSize blob frames ordered) :
    blob.length ≤ 32767 * maxSize := by
  have hcount : frames.length ≤ 32767 := by
    by_contra hlt
    have hmem : frames.length ∈ ordered.map Frame.number := by
      rw [h.numbers, List.mem_range'_1]
      omega
    obtain ⟨f, -, hf⟩ := List.mem_map.mp hmem
    have hf15 : f.number < 2 ^ 15 := f.number_lt
    omega
  have hsum : (ordered.map fun f => f.data.length).sum ≤ ordered.length * maxSize := by
    have hle := List.sum_le_card_nsmul (ordered.map fun f => f.data.length) maxSize (by
      intro len hlen
      obtain ⟨f, hf, rfl⟩ := List.mem_map.mp hlen
      obtain ⟨heq, -, hmax⟩ := h.lengths f (h.perm.mem_iff.mp hf)
      exact heq.trans_le hmax)
    rwa [List.length_map, Nat.nsmul_eq_mul] at hle
  calc blob.length = (ordered.map fun f => f.data.length).sum := by rw [← h.payload, List.length_flatMap]
    _ ≤ ordered.length * maxSize := hsum
    _ = frames.length * maxSize := by rw [h.perm.length_eq]
    _ ≤ 32767 * maxSize := Nat.mul_le_mul_right _ hcount

theorem Sent.splits {n : Nat} (h : Sent s m blob n frames) (hn : n < 2 ^ 15)
    (hlen : blob.length ≤ n * s.maxSize) :
    Splits s.maxSize blob frames ((List.range' 1 n).map (fragment s m blob n)) where
  perm := h.perm.symm
  numbers := by
    rw [h.length_frames, List.map_map]
    conv_rhs => rw [← List.map_id (List.range' 1 n)]
    apply List.map_congr_left
    intro i hi
    rw [List.mem_range'_1] at hi
    exact number_fragment hn (by omega)
  marked := by
    intro f hf
    obtain ⟨i, -, hi, rfl⟩ := h.exists_number hf
    rw [lastfragment_fragment hn hi, number_fragment hn hi, h.length_frames]
  lengths := by
    intro f hf
    obtain ⟨i, hpos, hi, rfl⟩ := h.exists_number hf
    rw [length_data_fragment hpos hi, fragmentLen_fragment hpos]
    exact ⟨rfl, Split.size_pos h.pos h.le_length, Split.size_le hlen⟩
  payload := by
    have hdata : (List.range' 1 n).map (fun i => (fragment s m blob n i).data) =
        (List.range n).map (Split.piece blob n) := by
      rw [List.range'_eq_map_range, List.map_map]
      apply List.map_congr_left
      intro i _
      rw [Function.comp_apply, data_fragment (by omega), Nat.add_sub_cancel_left]
    rw [List.flatMap_map, List.flatMap, hdata, ← List.flatMap]
    exact Split.flatMap_piece blob h.pos

theorem length_le_of_sendsBlob (hblob : m.blob = some blob) (hpos : 0 < blob.length)
    (h : SendsBlob s shuffle m true blob) : blob.length ≤ 32767 * s.maxSize := by
  obtain ⟨rounds, hfalse | ⟨frames, -, ordered, hsplits⟩⟩ := h
  · obtain ⟨-, nums, -, frames, -, heq⟩ := sendMessage_ok hblob hpos hfalse
    cases heq
  · exact hsplits.length_le

theorem sendMessage_of_length_le (hblob : m.blob = some blob) (hpos : 0 < blob.length)
    (hlen : blob.length ≤ 32767 * s.maxSize) :
    sendMessage s shuffle m 65536 true = .ok (true,
      (shuffle.order (List.range' 1 (numfrags s blob.length))).map (fragment s m blob (numfrags s blob.length))) := by
  have hn : 0 < numfrags s blob.length := numfrags_pos s hpos hlen
  have hcount : numfrags s blob.length ≤ 32767 := numfrags_le_of_le s hlen
  have hnums : fragnums (numfrags s blob.length) 65536 1 = some (List.range' 1 (numfrags s blob.length)) :=
    fragnums_eq_some (by omega) _ _ _ (by omega) (by omega)
  have hfits : ∀ i ∈ shuffle.order (List.range' 1 (numfrags s blob.length)),
      (fragment s m blob (numfrags s blob.length) i).fragmentLen ≤ maxFragmentSize := by
    intro i hi
    rw [(shuffle.perm _).mem_iff, List.mem_range'_1] at hi
    rw [fragmentLen_fragment (by omega)]
    exact (Split.size_le (le_numfrags_mul s hlen)).trans s.le_max
  rw [sendMessage_of_blob hblob hpos hn.ne', hnums]
  simp only [mapM_sendFragment.mpr ⟨rfl, hfits⟩]
  rfl

theorem sendsBlob_of_length_le (hblob : m.blob = some blob) (hpos : 0 < blob.length)
    (hlen : blob.length ≤ 32767 * s.maxSize) : SendsBlob s shuffle m true blob := by
  have hcount : numfrags s blob.length ≤ 32767 := numfrags_le_of_le s hlen
  have hsend : sendMessage s shuffle m 65536 true = _ := sendMessage_of_length_le hblob hpos hlen
  obtain ⟨sent, hsent⟩ := sent_of_sendMessage hsend
  obtain rfl : sent = blob := Option.some.inj (hsent.getBlob.symm.trans hblob)
  exact ⟨65536, .inr ⟨_, hsend, _, hsent.splits (by omega) (le_numfrags_mul s hlen)⟩⟩

/-- The count is in the fifteen bits beside the mark for blobs of at most `32767` full fragments. -/
theorem sendsBlob_iff (hblob : m.blob = some blob) (hpos : 0 < blob.length) :
    SendsBlob s shuffle m dest blob ↔ dest = false ∨ blob.length ≤ 32767 * s.maxSize := by
  cases dest with
  | false =>
    have hfalse : sendMessage s shuffle m 0 false = .ok (false, []) := by
      simp [sendMessage, hblob, hpos.ne', pure, Except.pure]
    exact iff_of_true ⟨0, .inl hfalse⟩ (.inl rfl)
  | true =>
    constructor
    · intro h
      exact .inr (length_le_of_sendsBlob hblob hpos h)
    · rintro (h | h)
      · cases h
      · exact sendsBlob_of_length_le hblob hpos h

def unshuffled : Shuffle := ⟨id, fun _ => .refl _⟩

def zeros (len : Nat) : Str := List.replicate len 0

theorem length_zeros (len : Nat) : (zeros len).length = len := List.length_replicate

def outgoing (blob : Str) : Outgoing := ⟨1, 4, some blob⟩

theorem sendsBlob_two_fragments : SendsBlob (startup 200 0) unshuffled (outgoing (zeros 201)) true (zeros 201) := by
  have hpos : 0 < (zeros 201).length := by
    rw [length_zeros]
    decide
  apply (sendsBlob_iff rfl hpos).mpr
  right
  rw [length_zeros]
  decide

/-- The count of fragments is `65536`, which is `0` in sixteen bits. -/
theorem not_sendsBlob_divisionByZero :
    (∀ rounds,
      sendMessage (startup 200 0) unshuffled (outgoing (zeros 13107200)) rounds true = .error .divisionByZero) ∧
      ¬ SendsBlob (startup 200 0) unshuffled (outgoing (zeros 13107200)) true (zeros 13107200) := by
  have hpos : 0 < (zeros 13107200).length := by
    rw [length_zeros]
    decide
  constructor
  · intro rounds
    apply sendMessage_of_numfrags_eq_zero rfl hpos
    rw [length_zeros]
    decide
  · intro h
    have hle : (zeros 13107200).length ≤ 32767 * 200 := length_le_of_sendsBlob rfl hpos h
    rw [length_zeros] at hle
    exact absurd hle (by decide)

end

end Abacus.Messenger.Fragments
