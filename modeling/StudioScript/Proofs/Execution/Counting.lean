import StudioScript.Proofs.Execution.Provenance
import StudioScript.Proofs.Execution.Replay
import StudioScript.Proofs.Number.Whole
import StudioScript.Session.Snapshot

/-! # Indices are exact

The count of new tracks is an unsigned number of 64 bits, and the indices that it starts from are
read from binary64 numbers.  An index that is given is below `10 ^ 15`, so that, whatever indices a
script gives, each track call takes the count at most one step further from there or from the number
of tracks of the session: it never starts again from zero.  A number is read as the integer that it
denotes, or it is refused; nothing is rounded (`Run.indices_exact`).
-/

namespace StudioScript

/-! ## Reading integers -/

namespace Arguments

variable {args : Arguments} {key : String} {value : Literal} {x : Number}

theorem number?_of_given (given : args.get? key = some value) (counts : value.toNumber? = some x)
    (call : String) : args.number? call key = .ok (some x) := by
  simp only [number?, given, counts]

variable (given : args.get? key = some value) (counts : value.toNumber? = some x) (call : String)
include given counts

theorem whole?_of_given :
    (∀ i, args.whole? call key = .ok (some i) ↔
      x.Denotes i ∧ -wholeBound < i ∧ i < wholeBound) ∧
    ((∀ i, x.Denotes i → ¬(-wholeBound < i ∧ i < wholeBound)) →
      args.whole? call key = .error (.invalidArgument call key (.notWhole x))) := by
  simp only [whole?, number?_of_given given counts call, Except.ok_bind, ← Number.whole?_eq_some]
  cases x.whole? with
  | none => exact ⟨fun i => ⟨by rintro ⟨⟩, by rintro ⟨⟨⟩, _⟩⟩, fun _ => rfl⟩
  | some i =>
    by_cases inside : -wholeBound < i ∧ i < wholeBound
    · simp only [if_pos inside]
      refine ⟨fun j => ⟨?_, ?_⟩, fun none => absurd inside (none i rfl)⟩
      · intro same
        cases same
        exact ⟨rfl, inside⟩
      · rintro ⟨same, _⟩
        cases same
        rfl
    · simp only [if_neg inside]
      refine ⟨fun j => ⟨by rintro ⟨⟩, ?_⟩, fun _ => rfl⟩
      rintro ⟨same, bounds⟩
      cases same
      exact absurd bounds inside

theorem index?_of_given :
    (∀ n : Nat, args.index? call key = .ok (some n) ↔ x.Denotes n ∧ (n : Int) < wholeBound) ∧
    ((∀ n : Nat, x.Denotes n → ¬(n : Int) < wholeBound) →
      ∃ fault, args.index? call key = .error (.invalidArgument call key fault)) := by
  obtain ⟨accepts, refuses⟩ := whole?_of_given given counts call
  have positive : 0 < wholeBound := by decide
  have ofWhole {i : Int} (whole : args.whole? call key = .ok (some i)) :
      args.index? call key =
        if 0 ≤ i then .ok (some i.toNat) else refuse call key (.notIndex i) := by
    simp only [index?, whole, Except.ok_bind]
    rfl
  refine ⟨fun n => ⟨fun read => ?_, fun denoted => ?_⟩, fun none => ?_⟩
  · obtain ⟨whole, found, rest⟩ := Except.bind_eq_ok.mp read
    cases whole with
    | none => cases rest
    | some i =>
      obtain ⟨denotes, _, below⟩ := (accepts i).mp found
      rw [ofWhole found] at read
      split at read
      · next natural =>
        cases read
        rw [Int.toNat_of_nonneg natural]
        exact ⟨denotes, below⟩
      · cases read
  · obtain ⟨denotes, below⟩ := denoted
    rw [ofWhole ((accepts n).mpr ⟨denotes, by omega, below⟩), if_pos (Int.natCast_nonneg n),
      Int.toNat_natCast]
  · by_cases denotes : ∃ i, x.Denotes i ∧ -wholeBound < i ∧ i < wholeBound
    · obtain ⟨i, denotes, above, below⟩ := denotes
      rw [ofWhole ((accepts i).mpr ⟨denotes, above, below⟩)]
      split
      · next natural =>
        obtain ⟨n, rfl⟩ := Int.eq_ofNat_of_zero_le natural
        exact absurd below (none n denotes)
      · exact ⟨_, rfl⟩
    · have refused := refuses fun i given inside => denotes ⟨i, given, inside⟩
      refine ⟨.notWhole x, ?_⟩
      rw [index?, refused]
      rfl

end Arguments

namespace Snapshot

theorem index_of_number {json : Json} {x : Number} (counts : json.number? = some x) :
    (∀ n : Nat, index json = .ok n ↔ x.Denotes n ∧ (n : Int) < indexBound) ∧
    ((∀ n : Nat, x.Denotes n → ¬(n : Int) < indexBound) →
      index json = .error (.invalidIndex x)) := by
  have read : number json = .ok x := by simp only [number, counts]
  simp only [index, read, Except.ok_bind, ← Number.whole?_eq_some]
  cases x.whole? with
  | none => exact ⟨fun n => ⟨by rintro ⟨⟩, by rintro ⟨⟨⟩, _⟩⟩, fun _ => rfl⟩
  | some i =>
    by_cases inside : 0 ≤ i ∧ i < indexBound
    · obtain ⟨k, rfl⟩ := Int.eq_ofNat_of_zero_le inside.1
      simp only [if_pos inside]
      refine ⟨fun n => ⟨?_, ?_⟩, fun none => absurd inside.2 (none k rfl)⟩
      · intro same
        cases same
        exact ⟨rfl, inside.2⟩
      · rintro ⟨same, _⟩
        cases same
        rfl
    · simp only [if_neg inside]
      refine ⟨fun n => ⟨by rintro ⟨⟩, ?_⟩, fun _ => rfl⟩
      rintro ⟨same, below⟩
      cases same
      exact absurd ⟨Int.natCast_nonneg n, below⟩ inside

end Snapshot

/-! ## Track calls -/

namespace Run

/-- What a track call that succeeds does, with no sum or difference outside of the range of indices:
    it goes to the track whose index is one below the `id`, or to the selected track, or it creates
    a track at the index that is given, or else at the count, and the count is one more then. -/
inductive TracksExactly (ctx : Context) (args : Arguments) (s s' : RunState) : Prop where
  | existing {index : Nat} (id : args.whole? "track" "id" = .ok (some ((index : Int) + 1)))
      (inRange : index + 1 < indexModulus) (now : s' = { s with currentTrack := some index })
  | selected {index : Nat} (selected : ctx.session.selectedIndex? = some index)
      (now : s' = { s with currentTrack := some index })
  | created {instrument name : Option String} {given : Option Nat} {index : Nat}
      (asked : args.index? "track" "index" = .ok given) (taken : index = given.getD s.nextIndex)
      (inRange : index + 1 < indexModulus)
      (emitted : s'.actions = s.actions ++ [.createTrack instrument name index])
      (next : s'.nextIndex = index + 1)

theorem tracksExactly_of_reaches {ctx : Context} {made : List MadeCall} {s s' : RunState}
    {pending pending' : Option Collection} {args : Arguments} (reached : Reaches ctx made s pending)
    (room : HasRoom ctx made.length) (ran : call ctx pending (.track args) s = .ok pending' s') :
    TracksExactly ctx args s s' := by
  have bound : Arguments.wholeBound.toNat < indexModulus / 2 := by decide
  cases effect_of_call ran with
  | existingTrack request =>
    obtain ⟨n, id, positive, rfl⟩ := TrackRequest.id_of_existing request
    have small := (Arguments.bounds_of_whole? id).2
    have above : n = (n - 1).toNat + 1 := by omega
    exact .existing (above ▸ id) (by omega) rfl
  | selectedTrack _ selected => exact .selected selected rfl
  | @newTrack _ _ instrument name given request =>
    have below := reached.nextIndex_le
    have fewer : trackCalls made ≤ made.length := List.countP_le_length
    have taken : given.getD s.nextIndex ≤
        max ctx.session.tracks.length Arguments.wholeBound.toNat + made.length := by
      cases given with
      | none =>
        rw [Option.getD_none]
        omega
      | some index =>
        have small := TrackRequest.lt_of_new request
        rw [Option.getD_some]
        omega
    have inRange : given.getD s.nextIndex + 1 < indexModulus := by
      have tracks := room.1
      have calls := room.2
      omega
    exact .created (TrackRequest.index_of_new request) rfl inRange rfl
      (nextIndex_creating room taken)

/-- Index arithmetic is exact.  The count of new tracks is never further from the number of tracks
    of the session, or from the bound of the indices that can be given, than by the number of track
    calls that were made, and visiting items leaves it alone; so a track call takes no index out of
    the range of 64 bits.  What is accepted as an integer or as an index, in a call or in a
    snapshot, is the integer that the number denotes, and a number that denotes none in the range is
    refused. -/
theorem indices_exact {ctx : Context} {made : List MadeCall} {s : RunState}
    {pending : Option Collection} (reached : Reaches ctx made s pending)
    (room : HasRoom ctx made.length) :
    s.nextIndex ≤ max ctx.session.tracks.length (10 ^ 15) + trackCalls made ∧
    (∀ i name (items : List Item) item,
      ((items.foldl (afterItem ctx i s.currentTrack name) s).visiting
        s.currentTrack item).nextIndex = s.nextIndex) ∧
    (∀ args pending' s', call ctx pending (.track args) s = .ok pending' s' →
      TracksExactly ctx args s s') ∧
    (∀ (args : Arguments) key value x, args.get? key = some value → value.toNumber? = some x →
      ∀ call,
        ((∀ i, args.whole? call key = .ok (some i) ↔ x.Denotes i ∧ -10 ^ 15 < i ∧ i < 10 ^ 15) ∧
          ((∀ i, x.Denotes i → ¬(-10 ^ 15 < i ∧ i < 10 ^ 15)) →
            args.whole? call key = .error (.invalidArgument call key (.notWhole x)))) ∧
        ((∀ n : Nat, args.index? call key = .ok (some n) ↔ x.Denotes n ∧ n < 10 ^ 15) ∧
          ((∀ n : Nat, x.Denotes n → ¬n < 10 ^ 15) →
            ∃ fault, args.index? call key = .error (.invalidArgument call key fault)))) ∧
    (∀ json x, Json.number? json = some x →
      (∀ n : Nat, Snapshot.index json = .ok n ↔ x.Denotes n ∧ n < 9 * 10 ^ 15) ∧
        ((∀ n : Nat, x.Denotes n → ¬n < 9 * 10 ^ 15) →
          Snapshot.index json = .error (.invalidIndex x))) := by
  refine ⟨reached.nextIndex_le, fun i name items item => ?_,
    fun args pending' s' ran => tracksExactly_of_reaches reached room ran,
    fun args key value x given counts call => ⟨?_, ?_⟩, fun json x counts => ?_⟩
  · exact (sameCount_foldl_afterItem ctx i s.currentTrack name items s).1
  · exact Arguments.whole?_of_given given counts call
  · have bound (n : Nat) : n < 10 ^ 15 ↔ (n : Int) < Arguments.wholeBound := by
      unfold Arguments.wholeBound
      omega
    simpa only [bound] using Arguments.index?_of_given given counts call
  · have bound (n : Nat) : n < 9 * 10 ^ 15 ↔ (n : Int) < Snapshot.indexBound := by
      unfold Snapshot.indexBound
      omega
    simpa only [bound] using Snapshot.index_of_number counts

/-- Behind the first track of an empty session, the count has taken one step. -/
theorem indices_exact_behind_creation :
    let ctx : Context := { session := .empty }
    let s := (RunState.initial ctx.session).creating none none 0
    Reaches ctx [⟨.initial ctx.session, .track .empty⟩] s none ∧ HasRoom ctx 1 ∧
      s.nextIndex ≤ 10 ^ 15 + 1 ∧
        ∃ s', call ctx none (.track .empty) s = .ok none s' ∧ TracksExactly ctx .empty s s' := by
  intro ctx s
  have reached : Reaches ctx [⟨.initial ctx.session, .track .empty⟩] s none := .call .start rfl
  have room : HasRoom ctx 1 := ⟨by decide, by decide⟩
  obtain ⟨bounded, _, exact, _⟩ := indices_exact reached room
  exact ⟨reached, room, bounded, _, rfl, exact .empty none _ rfl⟩

end Run

end StudioScript
