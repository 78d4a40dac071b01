import Stemd.Core.Wav
import Stemd.Semantics.Boxes
import Stemd.Decode.Stream

/-! Priming samples that an edit list says to skip.

An edit list is a box inside `moov/trak/edts`. The decoder does not walk boxes: it looks for the
letters `elst` and takes what follows the first of them with entries for the list. -/

set_option autoImplicit false

namespace Stemd.Decode

open Stemd.Core Stemd.Semantics Stemd.Semantics.Framing Stemd.Semantics.Scanning
open Stemd.Semantics.Boxes

variable {F : Type}

/-! ## The scan -/

/-- A place that is indexed: outside of what is held the call panics. -/
def indexed {α : Type} : Option α → Call α
  | some value => .returned value
  | none => .panicked

def elst : Bytes := [0x65, 0x6c, 0x73, 0x74]

def i32 (bytes : Bytes) : Int := (BitVec.ofNat 32 (bigEndian bytes)).toInt

def i64 (bytes : Bytes) : Int := (BitVec.ofNat 64 (bigEndian bytes)).toInt

/-- `usize::try_from(media_time).ok()` -/
def usize (mediaTime : Int) : Option Nat := if 0 ≤ mediaTime then some mediaTime.toNat else none

inductive Turn where
  | stop (delay : Option Nat)
  | resume (next : Nat)

instance : Monad Call where
  pure := .returned
  bind first next := match first with
    | .returned value => next value
    | .panicked => .panicked

def elstTurn (hay : Bytes) (cursor : Nat) : Call Turn := do
  let rest ← indexed (slice hay cursor hay.length)
  match find rest elst with
  | none => return .stop none
  | some found =>
    let start := cursor + found
    match slice hay (start + 4) (start + 24) with
    | none => return .stop none
    | some body =>
      let version ← indexed body[0]?
      let count := bigEndian (← indexed (slice body 4 8))
      if count = 0 then return .resume (start + 4)
      else if version = 1 then
        match slice hay (start + 20) (start + 28) with
        | none => return .stop none
        | some time => return .stop (usize (i64 time))
      else return .stop (usize (i32 (← indexed (slice body 12 16))))

/-! What follows the letters, read as an edit list. -/

def Entryless (body : Bytes) : Prop :=
  20 ≤ body.length ∧ bigEndian ((body.drop 4).take 4) = 0

instance (body : Bytes) : Decidable (Entryless body) :=
  inferInstanceAs (Decidable (_ ∧ _))

/-- The media time of the first entry: eight bytes in version one, else four. -/
def mediaTime (body : Bytes) : Option Nat :=
  if body.length < 20 ∨ bigEndian ((body.drop 4).take 4) = 0 then none
  else if body[0]? = some 1 then
    if body.length < 24 then none else usize (i64 ((body.drop 16).take 8))
  else usize (i32 ((body.drop 12).take 4))

theorem elst_once (d : Nat) (positive : 0 < d) (within : d < elst.length) :
    elst[d]? ≠ elst[0]? :=
  (by decide : ∀ d < elst.length, 0 < d → elst[d]? ≠ elst[0]?) d within positive

theorem elst_text : elst ≠ [] := by decide

theorem elstTurn_cases {hay : Bytes} {cursor : Nat} (inside : cursor ≤ hay.length) :
    (find (hay.drop cursor) elst = none ∧ elstTurn hay cursor = .returned (.stop none)) ∨
      ∃ found, find (hay.drop cursor) elst = some found ∧
        (Entryless (hay.drop (cursor + found + 4)) ∧
            elstTurn hay cursor = .returned (.resume (cursor + found + 4)) ∨
          ¬ Entryless (hay.drop (cursor + found + 4)) ∧
            elstTurn hay cursor =
              .returned (.stop (mediaTime (hay.drop (cursor + found + 4))))) := by
  have rest : slice hay cursor hay.length = some (hay.drop cursor) := by
    rw [slice_some inside le_rfl, List.take_of_length_le (by rw [List.length_drop])]
  cases located : find (hay.drop cursor) elst with
  | none =>
    refine .inl ⟨rfl, ?_⟩
    simp only [elstTurn, rest, indexed, bind, located, pure]
  | some found =>
    have spelled := (find_some located).1.inside elst_text
    rw [List.length_drop, show elst.length = 4 from rfl] at spelled
    -- Everything that the turn reads is read behind the letters.
    have behind (a b : Nat) : slice hay (cursor + found + 4 + a) (cursor + found + 4 + b) =
        slice (hay.drop (cursor + found + 4)) a b := slice_drop (by omega)
    refine .inr ⟨found, rfl, ?_⟩
    -- The body of the code is what follows the letters, as far as twenty bytes.
    have whole := behind 0 20
    have wide := behind 16 24
    simp only [Nat.add_zero, Nat.add_assoc, Nat.reduceAdd] at whole wide ⊢
    simp only [elstTurn, rest, indexed, bind, located, pure, Nat.add_assoc, whole, wide]
    generalize hay.drop (cursor + (found + 4)) = body
    by_cases short : body.length < 20
    · rw [slice_none short]
      refine .inr ⟨fun empty => by have := empty.1; omega, ?_⟩
      rw [mediaTime, if_pos (.inl short)]
    · have long : 0 < body.length := by omega
      have twenty : slice body 0 20 = some (body.take 20) :=
        slice_some (by omega) (by omega)
      have first : (body.take 20)[0]? = some body[0] := by
        rw [List.getElem?_take_of_lt (by omega), List.getElem?_eq_getElem long]
      have count : slice (body.take 20) 4 8 = some ((body.drop 4).take 4) := by
        rw [slice_take (by omega), slice_some (by omega) (by omega)]
      have narrow : slice (body.take 20) 12 16 = some ((body.drop 12).take 4) := by
        rw [slice_take (by omega), slice_some (by omega) (by omega)]
      simp only [twenty, first, count, narrow]
      by_cases none : bigEndian ((body.drop 4).take 4) = 0
      · exact .inl ⟨⟨by omega, none⟩, if_pos none⟩
      · refine .inr ⟨fun empty => none empty.2, ?_⟩
        rw [if_neg none, mediaTime, if_neg (not_or.mpr ⟨short, none⟩),
          List.getElem?_eq_getElem long]
        by_cases version : body[0] = 1
        · rw [if_pos version, if_pos (congrArg some version)]
          by_cases cut : body.length < 24
          · rw [slice_none cut, if_pos cut]
          · rw [slice_some (by omega) (by omega), if_neg cut]
        · rw [if_neg version, if_neg (fun same => version (Option.some.inj same))]

theorem elstTurn_resume {hay : Bytes} {cursor next : Nat}
    (turned : elstTurn hay cursor = .returned (.resume next)) :
    cursor < next ∧ next ≤ hay.length := by
  by_cases inside : cursor ≤ hay.length
  · rcases elstTurn_cases inside with ⟨-, stopped⟩ | ⟨found, located, ⟨-, resumed⟩ | ⟨-, stopped⟩⟩
    · rw [stopped] at turned
      cases turned
    · rw [resumed] at turned
      cases turned
      have spelled := (find_some located).1.inside elst_text
      rw [List.length_drop, show elst.length = 4 from rfl] at spelled
      omega
    · rw [stopped] at turned
      cases turned
  -- Past the end there is nothing to slice, and the call panics instead of going on.
  · have outside : slice hay cursor hay.length = none := if_neg fun held => inside held.1
    simp only [elstTurn, outside, indexed, bind] at turned
    cases turned

def elstFrom (hay : Bytes) (cursor : Nat) : Call (Option Nat) :=
  match _ : elstTurn hay cursor with
  | .panicked => .panicked
  | .returned (.stop delay) => .returned delay
  | .returned (.resume next) => elstFrom hay next
  termination_by hay.length - cursor
  decreasing_by
    have moved := elstTurn_resume ‹_›
    omega

def elstMediaTime (hay : Bytes) : Call (Option Nat) := elstFrom hay 0

def Passed (hay : Bytes) (cursor : Nat) : Prop :=
  ∀ j < cursor, Spelled elst hay j → Entryless (hay.drop (j + 4))

/-- The first place with the letters where the list is not one without entries. -/
structure FirstList (hay : Bytes) (i : Nat) : Prop where
  spelled : Spelled elst hay i
  listed : ¬ Entryless (hay.drop (i + 4))
  before : Passed hay i

theorem Passed.start {hay : Bytes} {cursor found : Nat} (passed : Passed hay cursor)
    (located : find (hay.drop cursor) elst = some found) : Passed hay (cursor + found) := by
  intro j earlier spelled
  by_cases seen : j < cursor
  · exact passed j seen spelled
  · refine absurd ((Spelled.drop cursor).mpr ?_) ((find_some located).2 (j - cursor) (by omega))
    rwa [show cursor + (j - cursor) = j by omega]

theorem Passed.next {hay : Bytes} {start : Nat} (passed : Passed hay start)
    (here : Spelled elst hay start) (empty : Entryless (hay.drop (start + 4))) :
    Passed hay (start + 4) := by
  intro j earlier spelled
  rcases Nat.lt_trichotomy j start with before | rfl | behind
  · exact passed j before spelled
  · exact empty
  · have apart := here.apart spelled elst_once behind
    rw [show elst.length = 4 from rfl] at apart
    omega

theorem elstFrom_stop {hay : Bytes} {cursor : Nat} {delay : Option Nat}
    (stopped : elstTurn hay cursor = .returned (.stop delay)) :
    elstFrom hay cursor = .returned delay := by
  rw [elstFrom]
  split <;> rename_i other <;> rw [stopped] at other <;> cases other
  rfl

theorem elstFrom_resume {hay : Bytes} {cursor next : Nat}
    (resumed : elstTurn hay cursor = .returned (.resume next)) :
    elstFrom hay cursor = elstFrom hay next := by
  rw [elstFrom]
  split <;> rename_i other <;> rw [resumed] at other <;> cases other
  rfl

/-- From a cursor that has passed nothing but lists without entries, the loop returns, and what
it returns is read at the first list that has some. -/
theorem elstFrom_returns {hay : Bytes} {cursor : Nat} (inside : cursor ≤ hay.length)
    (passed : Passed hay cursor) :
    ∃ delay, elstFrom hay cursor = .returned delay ∧
      ∀ n, delay = some n ↔ ∃ i, FirstList hay i ∧ mediaTime (hay.drop (i + 4)) = some n := by
  rcases elstTurn_cases inside with ⟨missing, stopped⟩ | ⟨found, located, turned⟩
  · refine ⟨none, elstFrom_stop stopped, fun n => ⟨nofun, ?_⟩⟩
    rintro ⟨i, first, -⟩
    by_cases seen : i < cursor
    · exact absurd (passed i seen first.spelled) first.listed
    · refine absurd ((Spelled.drop cursor).mpr ?_) (find_none elst_text missing (i - cursor))
      rw [show cursor + (i - cursor) = i by omega]
      exact first.spelled
  · have here := (Spelled.drop cursor).mp (find_some located).1
    have start := passed.start located
    rcases turned with ⟨empty, resumed⟩ | ⟨listed, stopped⟩
    · have moved := elstTurn_resume resumed
      obtain ⟨delay, returned, first⟩ := elstFrom_returns moved.2 (start.next here empty)
      exact ⟨delay, (elstFrom_resume resumed).trans returned, first⟩
    · refine ⟨_, elstFrom_stop stopped, fun n => ⟨fun told => ?_, ?_⟩⟩
      · exact ⟨cursor + found, ⟨here, listed, start⟩, told⟩
      · rintro ⟨i, first, told⟩
        -- There is one first list.
        rcases Nat.lt_trichotomy i (cursor + found) with before | rfl | behind
        · exact absurd (start i before first.spelled) first.listed
        · exact told
        · exact absurd (first.before _ behind here) listed
  termination_by hay.length - cursor
  decreasing_by omega

theorem elstMediaTime_returns (hay : Bytes) :
    ∃ delay, elstMediaTime hay = .returned delay ∧
      ∀ n, delay = some n ↔ ∃ i, FirstList hay i ∧ mediaTime (hay.drop (i + 4)) = some n :=
  elstFrom_returns (Nat.zero_le _) fun _ before => absurd before (Nat.not_lt_zero _)

/-! ## The decode -/

/-- `elst` is looked for in this many bytes. -/
def headBytes : Nat := 1 <<< 22

def head (file : Bytes) : Bytes := file.take headBytes

/-- `data` is what reading the file comes to. -/
def mp4EncoderDelay (data : Option Bytes) : Call (Option Nat) :=
  match data with
  | none => .returned none
  | some data => do elstMediaTime (← indexed (slice data 0 (min data.length headBytes)))

/-- `ch.drain(..skip)` on every channel. -/
def drained (skip : Nat) : List (List F) → Call (List (List F))
  | [] => .returned []
  | channel :: channels => do
    let kept ← if skip ≤ channel.length then Call.returned (channel.drop skip) else .panicked
    return kept :: (← drained skip channels)

/-- `opened` is what the reader makes of the file, if it can be opened, and `data` what reading
it again comes to. -/
def decode (path : String) (opened : Option (Probed F)) (data : Option Bytes) :
    Call (Except String (Decoded F)) :=
  match opened with
  | none => .returned (.error ("opening " ++ path))
  | some probed =>
    match decodeStream probed path with
    | .error error => .returned (.error error)
    | .ok decoded => do
      match ← mp4EncoderDelay data with
      | none => return .ok decoded
      | some skip =>
        if 0 < skip then
          let first ← indexed decoded.data[0]?
          if skip < first.length then
            return .ok ⟨← drained skip decoded.data, decoded.sampleRate⟩
          else return .ok decoded
        else return .ok decoded

theorem mp4EncoderDelay_returns (data : Option Bytes) :
    ∃ delay, mp4EncoderDelay data = .returned delay ∧
      ∀ n, delay = some n ↔ ∃ file i, data = some file ∧ FirstList (head file) i ∧
        mediaTime ((head file).drop (i + 4)) = some n := by
  cases data with
  | none =>
    refine ⟨none, rfl, fun n => ⟨nofun, ?_⟩⟩
    rintro ⟨file, i, other, -⟩
    cases other
  | some file =>
    have front : slice file 0 (min file.length headBytes) = some (head file) := by
      rw [slice_some (Nat.zero_le _) (Nat.min_le_left ..), List.drop_zero, Nat.sub_zero,
        Nat.min_comm, ← List.take_take, List.take_length, head]
    obtain ⟨delay, returned, first⟩ := elstMediaTime_returns (head file)
    refine ⟨delay, ?_, fun n => (first n).trans ⟨?_, ?_⟩⟩
    · simp only [mp4EncoderDelay, front, indexed, bind, returned]
    · rintro ⟨i, listed, told⟩
      exact ⟨file, i, rfl, listed, told⟩
    · rintro ⟨other, i, same, listed, told⟩
      cases same
      exact ⟨i, listed, told⟩

def Decoded.without (decoded : Decoded F) (n : Nat) : Decoded F :=
  ⟨decoded.data.map (·.drop n), decoded.sampleRate⟩

theorem drained_returns {skip : Nat} {channels : List (List F)}
    (long : ∀ channel ∈ channels, skip ≤ channel.length) :
    drained skip channels = .returned (channels.map (·.drop skip)) := by
  induction channels with
  | nil => rfl
  | cons channel channels ih =>
    have rest := ih fun other listed => long other (List.mem_cons_of_mem _ listed)
    simp only [drained, if_pos (long channel List.mem_cons_self), bind, rest, pure,
      List.map_cons]

theorem Decoded.Stereo.first {decoded : Decoded F} (stereo : decoded.Stereo) :
    ∃ channel, decoded.data[0]? = some channel ∧ channel.length = decoded.frames := by
  have two := stereo.pair
  match listed : decoded.data with
  | [] => simp [listed] at two
  | channel :: _ => exact ⟨channel, rfl, by simp [Decoded.frames, listed]⟩

theorem decode_returns {path : String} {probed : Probed F} {data : Option Bytes}
    {decoded : Decoded F} {delay : Option Nat} (ok : decodeStream probed path = .ok decoded)
    (scanned : mp4EncoderDelay data = .returned delay) :
    (∃ skip, delay = some skip ∧ 0 < skip ∧ skip < decoded.frames ∧
        decode path (some probed) data = .returned (.ok (decoded.without skip))) ∨
      (∀ skip, delay = some skip → 0 < skip → decoded.frames ≤ skip) ∧
        decode path (some probed) data = .returned (.ok decoded) := by
  have stereo := decodeStream_stereo ok
  obtain ⟨first, listed, long⟩ := stereo.first
  cases delay with
  | none =>
    refine .inr ⟨nofun, ?_⟩
    simp only [decode, ok, scanned, bind, pure]
  | some skip =>
    by_cases positive : 0 < skip
    · by_cases shorter : skip < decoded.frames
      · have cut : drained skip decoded.data = .returned (decoded.data.map (·.drop skip)) :=
          drained_returns fun channel held => (stereo.long channel held).symm ▸ shorter.le
        refine .inl ⟨skip, rfl, positive, shorter, ?_⟩
        simp only [decode, ok, scanned, bind, pure, if_pos positive, listed, indexed, long,
          if_pos shorter, cut, Decoded.without]
      · refine .inr ⟨fun other same _ => by cases same; omega, ?_⟩
        simp only [decode, ok, scanned, bind, pure, if_pos positive, listed, indexed, long,
          if_neg shorter]
    · refine .inr ⟨fun other same other_positive => by cases same; omega, ?_⟩
      simp only [decode, ok, scanned, bind, pure, if_neg positive]

/-! ## Real edit lists -/

def moov : Bytes := [0x6d, 0x6f, 0x6f, 0x76]

def trak : Bytes := [0x74, 0x72, 0x61, 0x6b]

def edts : Bytes := [0x65, 0x64, 0x74, 0x73]

/-- A box `elst` inside `moov/trak/edts` has a first entry with this media time. -/
def Declares (file : Bytes) (n : Nat) : Prop :=
  ∃ body ∈ nested [moov, trak, edts, elst] file, mediaTime body = some n

/-- The scan and the decode return, and what the decode returns is what the reader made of the
file, or that without exactly the samples that an edit list of the file says to skip. -/
structure OnlyReal (path : String) (opened : Option (Probed F)) (data : Option Bytes) : Prop where
  scanned : ∃ delay, mp4EncoderDelay data = .returned delay
  returned : ∃ result, decode path opened data = .returned result
  real : ∀ probed decoded result, opened = some probed → decodeStream probed path = .ok decoded →
    decode path opened data = .returned result → result = .ok decoded ∨
      ∃ file n, data = some file ∧ Declares file n ∧
        (∀ channel ∈ decoded.data, n ≤ channel.length) ∧ result = .ok (decoded.without n)

/-- Where the letters stand first with entries behind them, they tell of no time that would be
skipped, or of one that an edit list declares. -/
def Heeded (file : Bytes) (frames : Nat) : Prop :=
  ∀ i n, FirstList (head file) i → mediaTime ((head file).drop (i + 4)) = some n →
    0 < n → n < frames → Declares file n

theorem decode_ends (path : String) (opened : Option (Probed F)) (data : Option Bytes) :
    ∃ result, decode path opened data = .returned result := by
  cases opened with
  | none => exact ⟨_, rfl⟩
  | some probed =>
    cases ended : decodeStream probed path with
    | error error => exact ⟨.error error, by simp only [decode, ended]⟩
    | ok decoded =>
      obtain ⟨delay, scanned, -⟩ := mp4EncoderDelay_returns data
      rcases decode_returns ended scanned with ⟨skip, -, -, -, returned⟩ | ⟨-, returned⟩
      · exact ⟨_, returned⟩
      · exact ⟨_, returned⟩

theorem Decoded.Stereo.without_frames {decoded : Decoded F} (stereo : decoded.Stereo) (n : Nat) :
    (decoded.without n).frames = decoded.frames - n := by
  obtain ⟨first, listed, long⟩ := stereo.first
  match held : decoded.data with
  | [] => simp [held] at listed
  | channel :: _ => simp [Decoded.without, Decoded.frames, held]

theorem OnlyReal.heeded {path : String} {probed : Probed F} {file : Bytes}
    (only : OnlyReal path (some probed) (some file)) {decoded : Decoded F}
    (ok : decodeStream probed path = .ok decoded) : Heeded file decoded.frames := by
  intro i n first time positive shorter
  obtain ⟨delay, scanned, told⟩ := mp4EncoderDelay_returns (some file)
  have stereo := decodeStream_stereo ok
  have found : delay = some n := (told n).mpr ⟨file, i, rfl, first, time⟩
  -- The drop that happens is of one length only, which has to be the declared one.
  rcases decode_returns ok scanned with ⟨skip, same, -, -, returned⟩ | ⟨kept, -⟩
  · cases found.symm.trans same
    rcases only.real probed decoded _ rfl ok returned with
      whole | ⟨other, m, same, declares, held, cut⟩
    · have frames := congrArg Decoded.frames (Except.ok.inj whole)
      rw [stereo.without_frames] at frames
      omega
    · cases same
      have frames := congrArg Decoded.frames (Except.ok.inj cut)
      obtain ⟨channel, listed, long⟩ := stereo.first
      have below := held channel (List.mem_of_getElem? listed)
      rw [stereo.without_frames, stereo.without_frames] at frames
      rwa [show n = m by omega]
  · have longer := kept n found positive
    omega

theorem drops_only_real_iff (path : String) (opened : Option (Probed F)) (data : Option Bytes) :
    OnlyReal path opened data ↔
      ∀ probed decoded file, opened = some probed → decodeStream probed path = .ok decoded →
        data = some file → Heeded file decoded.frames := by
  constructor
  · rintro only probed decoded file rfl ok rfl
    exact only.heeded ok
  · intro heeded
    obtain ⟨delay, scanned, told⟩ := mp4EncoderDelay_returns data
    refine ⟨⟨delay, scanned⟩, decode_ends path opened data, ?_⟩
    rintro probed decoded result rfl ok returned
    rcases decode_returns ok scanned with ⟨skip, found, positive, shorter, cut⟩ | ⟨-, kept⟩
    · obtain ⟨file, i, rfl, first, time⟩ := (told skip).mp found
      refine .inr ⟨file, skip, rfl,
        heeded probed decoded file rfl ok rfl i skip first time positive shorter,
        fun channel listed => ?_, ?_⟩
      · rw [(decodeStream_stereo ok).long channel listed]
        exact shorter.le
      · rw [cut] at returned
        exact (Call.returned.inj returned).symm
    · rw [kept] at returned
      exact .inl (Call.returned.inj returned).symm

/-! A recording whose samples spell an edit list: a form of sixty-eight bytes, of which the last
twenty-four are six frames of stereo. -/

def recording : Bytes :=
  riffId ++ [60, 0, 0, 0] ++ waveId ++ fmtId ++ [16, 0, 0, 0, 1, 0, 2, 0, 0x44, 0xac, 0, 0,
    0x10, 0xb1, 2, 0, 4, 0, 16, 0] ++ dataId ++ [24, 0, 0, 0] ++
    (elst ++ [0, 0, 0, 0, 0, 0, 0, 1, 0, 0, 0, 0, 0, 0, 0, 1, 0, 0, 0, 0])

def recorded : Probed ℚ :=
  .track (some 44100) [.audio 44100 2 [27749 / 32768, 29811 / 32768, 0, 0, 0, 256 / 32768,
    0, 0, 0, 256 / 32768, 0, 0]] false

example : (readWav recording).isSome := by decide

theorem spelled_letters_cut_a_recording :
    ¬ OnlyReal "take.wav" (some recorded) (some recording) := by
  intro only
  have decoded : decodeStream recorded "take.wav" =
      .ok ⟨[[27749 / 32768, 0, 0, 0, 0, 0], [29811 / 32768, 0, 256 / 32768, 0, 256 / 32768, 0]],
        44100⟩ := rfl
  have first : FirstList (head recording) 44 :=
    ⟨by decide, by decide, by unfold Passed; decide⟩
  have time : mediaTime ((head recording).drop 48) = some 1 := by decide
  have bare : nested [moov, trak, edts, elst] recording = [] := by
    rw [nested, boxes_none (by decide)]
    rfl
  obtain ⟨body, listed, -⟩ := only.heeded decoded 44 1 first time (by decide) (by decide)
  rw [bare] at listed
  cases listed

/-! ## Lists that are there -/

theorem mediaTime_more {body long : Bytes} {n : Nat} (start : body <+: long)
    (told : mediaTime body = some n) : mediaTime long = some n := by
  obtain ⟨after, rfl⟩ := start
  have kept (a b : Nat) (within : a + b ≤ body.length) :
      ((body ++ after).drop a).take b = (body.drop a).take b := by
    rw [List.drop_append_of_le_length (by omega),
      List.take_append_of_le_length (by rw [List.length_drop]; omega)]
  unfold mediaTime at told
  split at told
  · cases told
  · rename_i listed
    obtain ⟨long, entries⟩ := not_or.mp listed
    have still : ¬ ((body ++ after).length < 20 ∨
        bigEndian (((body ++ after).drop 4).take 4) = 0) := by
      rw [kept 4 4 (by omega), List.length_append]
      omega
    rw [mediaTime, if_neg still, List.getElem?_append_left (by omega)]
    split at told
    · rename_i version
      split at told
      · cases told
      · rw [if_pos version, if_neg (by rw [List.length_append]; omega), kept 16 8 (by omega)]
        exact told
    · rename_i version
      rw [if_neg version, kept 12 4 (by omega)]
      exact told

theorem mediaTime_listed {body : Bytes} {n : Nat} (told : mediaTime body = some n) :
    ¬ Entryless body := by
  rintro ⟨-, none⟩
  rw [mediaTime, if_pos (.inr none)] at told
  cases told

theorem spelled_behind {hay before after : Bytes} (laid : hay = before ++ elst ++ after) :
    Spelled elst hay before.length := by
  rw [laid, Spelled, List.append_assoc, List.drop_left, List.take_left]

/-- A list with an entry that is the first to be spelled in the head of a file is heeded. -/
theorem Heeded.of_box {file before body after : Bytes} {n frames : Nat}
    (laid : file = before ++ elst ++ body ++ after)
    (there : body ∈ nested [moov, trak, edts, elst] file) (told : mediaTime body = some n)
    (near : before.length + 4 + body.length ≤ headBytes)
    (first : Passed (head file) before.length) : Heeded file frames := by
  have front : head file =
      before ++ elst ++ (body ++ after).take (headBytes - (before.length + 4)) := by
    have four : (before ++ elst).length = before.length + 4 := by simp [elst]
    rw [head, laid, List.append_assoc (before ++ elst), List.take_append,
      List.take_of_length_le (by omega), four]
  have behind : (head file).drop (before.length + 4) =
      (body ++ after).take (headBytes - (before.length + 4)) := by
    rw [front, List.append_assoc, ← List.drop_drop, List.drop_left]
    exact (List.drop_left : (elst ++ _).drop elst.length = _)
  have start : body <+: (head file).drop (before.length + 4) := by
    rw [behind, List.take_append, List.take_of_length_le (by omega)]
    exact List.prefix_append ..
  have here := mediaTime_more start told
  intro i m other time _ _
  rcases Nat.lt_trichotomy i before.length with earlier | rfl | later
  · exact absurd (first i earlier other.spelled) other.listed
  · rw [here] at time
    exact ⟨body, there, told.trans time⟩
  · exact absurd (other.before _ later (spelled_behind front)) (mediaTime_listed here)

/-- A file that declares a time spells the letters, so that the scan can only miss a list that
is further on or whose header is longer. -/
theorem Declares.spelled {file : Bytes} {n : Nat} (declares : Declares file n) :
    ∃ i, Spelled elst file i := by
  obtain ⟨body, there, -⟩ := declares
  have inner : body ∈ nested ([moov, trak, edts] ++ [elst]) file := there
  obtain ⟨before, extended, after, laid, -⟩ := nested_laid inner
  have whole : file = before ++ elst ++ (extended ++ body ++ after) := by
    rw [laid]
    simp only [List.append_assoc]
  exact ⟨before.length, spelled_behind whole⟩

end Stemd.Decode
