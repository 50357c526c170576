import Lycoris.Overlay.IdentityFile

/-!
One identity per data directory. The destination appears by one hard link to a complete document and is
never written or removed afterwards. What each call relies on in the directory is its own temporary file and
the destination, and a step of another call leaves both alone.
-/

namespace Lycoris.Overlay.IdentityFile
open Lib

variable {P : Primitives} {K : KeyPrimitives P}

/-! ### What is promised -/

/-- The whole document of an identity. -/
def Complete (K : KeyPrimitives P) (content : Bytes) : Prop :=
  ∃ identity : OwnIdentity P K, identity.encodeDocument = .ok content

/-- What holds of the directory and its callers at every moment. -/
structure OneIdentity (destination : Bytes) (state : DataDirectory K) : Prop where
  complete : ∀ content, state.files.read destination = some content → Complete K content
  same : ∀ i j first second, (state.calls i).phase = .returned (.ok first) →
    (state.calls j).phase = .returned (.ok second) → first = second
  once : ∀ i j, (state.calls i).reported = some .created → (state.calls j).reported = some .created → i = j
  /-- After a call without a failed removal no entry but the destination names a file it created. -/
  tidy : ∀ i result, (state.calls i).phase = .returned result → (state.calls i).removalFailed = false →
    ∀ temporary ∈ (state.calls i).made, ∀ entry, state.files.names entry = some temporary.file →
      entry = destination

/-- What every step leaves as it was: a destination that is there, the destination in any case where the
call has not made its own link, and the results of calls that have returned. -/
structure LeavesDestination (destination : Bytes) (state : DataDirectory K) (action : Action K) : Prop where
  kept : ∀ content, state.files.read destination = some content →
    (step destination state action).files.read destination = some content
  unlinked : ((step destination state action).calls action.call).linked = false →
    (step destination state action).files.read destination = state.files.read destination
  final : ∀ i result, (state.calls i).phase = .returned result →
    ((step destination state action).calls i).phase = .returned result

/-! ### The invariant -/

section Invariant

variable (destination : Bytes) (files : Files Bytes UInt8) (call : Call K)

/-- No entry but the destination names a file the call has created. -/
def Gone : Prop :=
  ∀ temporary ∈ call.made, ∀ entry, files.names entry = some temporary.file → entry = destination

/-- The destination reads as this identity. -/
def Published (identity : OwnIdentity P K) : Prop :=
  ∃ file, files.names destination = some file ∧ OwnIdentity.decode (files.contents file) = .ok identity

def StageSound (candidate : Candidate K) (temporary : Temporary) : Stage → Prop
  | .writing rest => call.linked = false ∧ files.contents temporary.file ++ rest = candidate.content
  | .syncing | .linking => call.linked = false ∧ files.contents temporary.file = candidate.content
  | .confirming => call.linked = true ∧ files.contents temporary.file = candidate.content
  | .removing publication => (publication = .created → call.linked = true) ∧
      files.contents temporary.file = candidate.content
  | .cleaning _ => True

def PhaseSound : Phase K → Prop
  | .opening load => Gone destination files call ∧ (load = .first → call.made = [])
  | .reading load file got => Gone destination files call ∧ (load = .first → call.made = []) ∧
      files.names destination = some file ∧ got <+: files.contents file
  | .preparing _ | .allocating _ _ => call.made = []
  | .holding candidate temporary stage => call.made = [temporary] ∧
      files.names temporary.entry = some temporary.file ∧ StageSound files call candidate temporary stage
  | .finishing candidate publication => Gone destination files call ∧
      (publication = .created → call.linked = true ∧ Published destination files candidate.identity)
  | .returned result => (∀ identity, result = .ok identity → Published destination files identity) ∧
      (call.removalFailed = false → Gone destination files call)
  | .crashed => True

/-- A file the call has created has no names but its temporary entry and, once linked, the destination. -/
structure Owned (linked : Bool) (temporary : Temporary) : Prop where
  old : temporary.file < files.next
  beside : temporary.entry ≠ destination
  names : ∀ entry, files.names entry = some temporary.file → entry = temporary.entry ∨ entry = destination
  linked : files.names destination = some temporary.file ↔ linked = true

structure CallSound : Prop where
  owned : ∀ temporary ∈ call.made, Owned destination files call.linked temporary
  source : call.linked = true → call.made ≠ []
  reported : call.reported = some .created → call.linked = true
  phase : PhaseSound destination files call call.phase

end Invariant

structure Sound (destination : Bytes) (state : DataDirectory K) : Prop where
  complete : ∀ file, state.files.names destination = some file → Complete K (state.files.contents file)
  calls : ∀ i, CallSound destination state.files (state.calls i)
  distinct : ∀ i j, i ≠ j → ∀ first ∈ (state.calls i).made, ∀ second ∈ (state.calls j).made,
    first.file ≠ second.file

variable {destination : Bytes} {files files' : Files Bytes UInt8} {call call' : Call K}

/-! ### What another call leaves alone -/

/-- The destination, once there, is the same file with the same content. -/
def Stable (destination : Bytes) (files files' : Files Bytes UInt8) : Prop :=
  ∀ file, files.names destination = some file →
    files'.names destination = some file ∧ files'.contents file = files.contents file

section Frame

variable (own : ∀ temporary ∈ call.made, Files.Keeps temporary.file files files')
  (stable : Stable destination files files')

include own in
theorem Gone.frame (gone : Gone destination files call) : Gone destination files' call :=
  fun temporary member entry named =>
    gone temporary member entry (((own temporary member).names entry).mp named)

omit own in
include stable in
theorem Published.frame {identity : OwnIdentity P K} (published : Published destination files identity) :
    Published destination files' identity := by
  obtain ⟨file, named, decoded⟩ := published
  obtain ⟨named', content⟩ := stable file named
  exact ⟨file, named', content ▸ decoded⟩

include own in
theorem StageSound.frame {candidate : Candidate K} {temporary : Temporary} {stage : Stage}
    (member : temporary ∈ call.made) (sound : StageSound files call candidate temporary stage) :
    StageSound files' call candidate temporary stage := by
  have content := (own temporary member).content
  cases stage with
  | cleaning error => trivial
  | _ => simpa only [StageSound, content] using sound

include own stable in
theorem PhaseSound.frame {phase : Phase K} (sound : PhaseSound destination files call phase) :
    PhaseSound destination files' call phase := by
  cases phase with
  | opening load => exact ⟨sound.1.frame own, sound.2⟩
  | reading load file got =>
    obtain ⟨gone, unmade, named, front⟩ := sound
    obtain ⟨named', content⟩ := stable file named
    exact ⟨gone.frame own, unmade, named', content ▸ front⟩
  | preparing candidate => exact sound
  | allocating candidate attempt => exact sound
  | holding candidate temporary stage =>
    obtain ⟨made, named, staged⟩ := sound
    have member : temporary ∈ call.made := by simp [made]
    exact ⟨made, ((own temporary member).names _).mpr named, staged.frame own member⟩
  | finishing candidate publication =>
    exact ⟨sound.1.frame own, fun created => ⟨(sound.2 created).1, (sound.2 created).2.frame stable⟩⟩
  | returned result =>
    exact ⟨fun identity ok => (sound.1 identity ok).frame stable, fun clean => (sound.2 clean).frame own⟩
  | crashed => trivial

include own stable in
theorem CallSound.frame (grows : files.next ≤ files'.next) (sound : CallSound destination files call) :
    CallSound destination files' call where
  owned temporary member := by
    have before := sound.owned temporary member
    have keeps := own temporary member
    exact {
      old := Nat.lt_of_lt_of_le before.old grows
      beside := before.beside
      names := fun entry named => before.names entry ((keeps.names entry).mp named)
      linked := (keeps.names destination).trans before.linked }
  source := sound.source
  reported := sound.reported
  phase := sound.phase.frame own stable

end Frame

/-! ### Steps without effect on the directory -/

theorem gone_of_unmade (unmade : call.made = []) : Gone destination files call := by
  intro temporary member
  rw [unmade] at member
  exact absurd member List.not_mem_nil

theorem CallSound.goes {phase : Phase K} (sound : CallSound destination files call)
    (due : PhaseSound destination files call phase) : CallSound destination files (call.goes phase) where
  owned := sound.owned
  source := sound.source
  reported := sound.reported
  phase := due

theorem CallSound.returns_error {error : IdentityFileError} (sound : CallSound destination files call)
    (clean : call.removalFailed = false → Gone destination files call) :
    CallSound destination files (call.returns (.error error)) :=
  sound.goes ⟨fun _ ok => (by cases ok), clean⟩

theorem CallSound.abandons {error : IdentityFileError} (sound : CallSound destination files call) :
    CallSound destination files { call.returns (.error error) with removalFailed := true } where
  owned := sound.owned
  source := sound.source
  reported := sound.reported
  phase := ⟨fun _ ok => (by cases ok), fun clean => (by cases clean)⟩

theorem loadFailed_sound {load : Load} (sound : CallSound destination files call)
    (gone : Gone destination files call) (unmade : load = .first → call.made = []) (keypair : K.Keypair)
    (error : IoError) : CallSound destination files (call.loadFailed load keypair error) := by
  unfold Call.loadFailed
  split
  · split
    · exact sound.goes (unmade rfl)
    · exact sound.returns_error fun _ => gone
  · exact sound.returns_error fun _ => gone

theorem createFailed_sound (sound : CallSound destination files call) (unmade : call.made = [])
    (candidate : Candidate K) (attempt : Nat) (error : IoError) :
    CallSound destination files (call.createFailed candidate attempt error) := by
  unfold Call.createFailed
  split
  · split
    · exact sound.goes unmade
    · exact sound.returns_error fun _ => gone_of_unmade unmade
  · exact sound.returns_error fun _ => gone_of_unmade unmade

theorem failed_sound (sound : CallSound destination files call) (keypair : K.Keypair) (error : IoError) :
    CallSound destination files (call.failed keypair error) := by
  have due := sound.phase
  unfold Call.failed
  cases phase : call.phase with
  | opening load =>
    rw [phase] at due
    exact loadFailed_sound sound due.1 due.2 keypair error
  | reading load file got =>
    rw [phase] at due
    exact loadFailed_sound sound due.1 due.2.1 keypair error
  | preparing candidate =>
    rw [phase] at due
    exact sound.returns_error fun _ => gone_of_unmade due
  | allocating candidate attempt =>
    rw [phase] at due
    exact createFailed_sound sound due candidate attempt error
  | holding candidate temporary stage =>
    rw [phase] at due
    obtain ⟨made, named, staged⟩ := due
    cases stage with
    | linking =>
      dsimp only
      split
      · exact sound.goes ⟨made, named, fun created => (by cases created), staged.2⟩
      · exact sound.goes ⟨made, named, trivial⟩
    | removing publication => exact sound.abandons
    | cleaning first => exact sound.abandons
    | writing rest => exact sound.goes ⟨made, named, trivial⟩
    | syncing => exact sound.goes ⟨made, named, trivial⟩
    | confirming => exact sound.goes ⟨made, named, trivial⟩
  | finishing candidate publication =>
    rw [phase] at due
    exact sound.returns_error fun _ => due.1
  | returned result => exact sound
  | crashed => exact sound

theorem crashes_sound (sound : CallSound destination files call) :
    CallSound destination files call.crashes := by
  unfold Call.crashes
  split
  · exact sound
  · exact sound.goes trivial

theorem failed_made (keypair : K.Keypair) (error : IoError) :
    (call.failed keypair error).made = call.made := by
  unfold Call.failed Call.loadFailed Call.createFailed
  repeat' split
  all_goals rfl

theorem crashes_made : call.crashes.made = call.made := by
  unfold Call.crashes
  split <;> rfl

/-! ### Steps on the directory -/

/-- What a step of a call gives: the call is sound again, a destination is kept, the files of others are,
and the destination is new only where the call has linked a complete document. -/
structure Acted (destination : Bytes) (files : Files Bytes UInt8) (call : Call K)
    (files' : Files Bytes UInt8) (call' : Call K) : Prop where
  sound : CallSound destination files' call'
  stable : Stable destination files files'
  grows : files.next ≤ files'.next
  others : ∀ file < files.next, (∀ temporary ∈ call.made, temporary.file ≠ file) →
    Files.Keeps file files files'
  fresh : ∀ temporary ∈ call'.made, temporary ∈ call.made ∨ temporary.file = files.next
  unlinked : call'.linked = false → files'.names destination = files.names destination
  published : ∀ file, files'.names destination = some file →
    files.names destination = some file ∨ Complete K (files'.contents file)

theorem Acted.quiet (sound : CallSound destination files call') (made : call'.made = call.made) :
    Acted destination files call files call' where
  sound := sound
  stable _ named := ⟨named, rfl⟩
  grows := Nat.le_refl _
  others file _ _ := Files.Keeps.refl file files
  fresh _ member := .inl (made ▸ member)
  unlinked _ := rfl
  published _ named := .inl named

theorem failed_acted (sound : CallSound destination files call) (keypair : K.Keypair) (error : IoError) :
    Acted destination files call files (call.failed keypair error) :=
  .quiet (failed_sound sound keypair error) (failed_made keypair error)

theorem CallSound.unlinked (sound : CallSound destination files call) (unmade : call.made = []) :
    call.linked = false := by
  cases linked : call.linked with
  | false => rfl
  | true => exact absurd unmade (sound.source linked)

theorem creates_acted {candidate : Candidate K} {suffix : Vector UInt8 16} {file : Nat}
    (sound : CallSound destination files call) (unmade : call.made = [])
    (done : files.createNew (temporaryEntry destination suffix) = .ok (files', file)) :
    let temporary : Temporary := ⟨temporaryEntry destination suffix, file⟩
    Acted destination files call files'
      { call.goes (.holding candidate temporary (.writing candidate.content)) with
        made := temporary :: call.made } := by
  intro temporary
  obtain ⟨free, fileEq, next, names, contents⟩ := Files.createNew_ok done
  have beside : temporary.entry ≠ destination := temporaryEntry_ne destination suffix
  have sameDestination : files'.names destination = files.names destination := by
    rw [names]
    exact Function.update_of_ne beside.symm _ _
  have unnamed : ∀ entry, files.names entry ≠ some file := fun entry named =>
    Nat.ne_of_lt (files.bounded entry file named) fileEq
  have unlinked := sound.unlinked unmade
  have owned : Owned destination files' call.linked temporary := by
    refine ⟨?_, beside, fun entry named => ?_, ?_⟩
    · rw [next, ← fileEq]
      exact Nat.lt_succ_self file
    · by_cases same : entry = temporary.entry
      · exact .inl same
      · rw [names, Function.update_of_ne same] at named
        exact absurd named (unnamed entry)
    · rw [sameDestination, unlinked]
      exact iff_of_false (unnamed destination) Bool.false_ne_true
  refine { sound := ?_, stable := ?_, grows := ?_, others := ?_, fresh := ?_, unlinked := ?_,
           published := ?_ }
  · refine ⟨fun other member => ?_, fun _ => List.cons_ne_nil _ _, sound.reported, ?_⟩
    · have only : other ∈ [temporary] := by simpa [unmade] using member
      obtain rfl := List.mem_singleton.mp only
      exact owned
    · refine ⟨congrArg (temporary :: ·) unmade, ?_, unlinked, ?_⟩
      · rw [names]
        exact Function.update_self _ _ _
      · rw [contents]
        simp [temporary]
  · intro old named
    have keeps := Files.createNew_keeps done (files.bounded destination old named)
    exact ⟨(keeps.names destination).mpr named, keeps.content⟩
  · rw [next]
    exact Nat.le_succ _
  · exact fun other old _ => Files.createNew_keeps done old
  · intro other member
    have only : other ∈ [temporary] := by simpa [unmade] using member
    obtain rfl := List.mem_singleton.mp only
    exact .inr fileEq
  · exact fun _ => sameDestination
  · intro old named
    exact .inl (sameDestination ▸ named)

/-- A call that has not linked its file may write to it. -/
theorem writes_acted {temporary : Temporary} {chunk : Bytes} {phase : Phase K}
    (sound : CallSound destination files call) (made : call.made = [temporary])
    (unlinked : call.linked = false)
    (due : PhaseSound destination (files.append temporary.file chunk) call phase) :
    Acted destination files call (files.append temporary.file chunk) (call.goes phase) where
  sound := ⟨fun other member => { sound.owned other member with }, sound.source, sound.reported, due⟩
  stable file named := by
    have own := sound.owned temporary (by simp [made])
    have other : file ≠ temporary.file := by
      rintro rfl
      exact absurd (own.linked.mp named) (by simp [unlinked])
    exact ⟨named, (Files.append_keeps other).content⟩
  grows := Nat.le_refl _
  others file _ other := Files.append_keeps (other temporary (by simp [made])).symm
  fresh _ member := .inl member
  unlinked _ := rfl
  published _ named := .inl named

theorem links_acted {candidate : Candidate K} {temporary : Temporary}
    (sound : CallSound destination files call) (made : call.made = [temporary])
    (named : files.names temporary.entry = some temporary.file)
    (written : files.contents temporary.file = candidate.content)
    (done : files.hardLink temporary.entry destination = .ok files') :
    Acted destination files call files'
      { call.goes (.holding candidate temporary .confirming) with linked := true } := by
  obtain ⟨free, next, contents, names⟩ := Files.hardLink_ok done
  have own := sound.owned temporary (by simp [made])
  have there : files'.names destination = some temporary.file := by
    rw [names, Function.update_self, named]
  have elsewhere : ∀ entry, entry ≠ destination → files'.names entry = files.names entry := by
    intro entry other
    rw [names, Function.update_of_ne other]
  refine { sound := ?_, stable := ?_, grows := ?_, others := ?_, fresh := ?_, unlinked := ?_,
           published := ?_ }
  · refine ⟨fun other member => ?_, fun _ => ?_, fun _ => rfl, ?_⟩
    · obtain rfl : other = temporary := by simpa [Call.goes, made] using member
      refine ⟨?_, own.beside, fun entry named' => ?_, iff_of_true there rfl⟩
      · rw [next]
        exact own.old
      · by_cases same : entry = destination
        · exact .inr same
        · rw [elsewhere entry same] at named'
          exact own.names entry named'
    · simp [Call.goes, made]
    · exact ⟨made, (elsewhere _ own.beside).trans named, rfl, (congrFun contents _).trans written⟩
  · intro file named'
    rw [free] at named'
    cases named'
  · exact Nat.le_of_eq next.symm
  · intro file _ other
    apply Files.hardLink_keeps done
    rw [named]
    exact fun same => other temporary (by simp [made]) (Option.some.inj same)
  · exact fun other member => .inl member
  · exact fun unlinked => absurd unlinked (by simp)
  · intro file named'
    rw [there, Option.some.injEq] at named'
    subst named'
    rw [contents, written]
    exact .inr ⟨candidate.identity, candidate.encoded⟩

theorem removes_acted {temporary : Temporary} {phase : Phase K}
    (sound : CallSound destination files call) (made : call.made = [temporary])
    (named : files.names temporary.entry = some temporary.file)
    (done : files.remove temporary.entry = .ok files')
    (due : Gone destination files' call → Stable destination files files' →
      PhaseSound destination files' call phase) :
    Acted destination files call files' (call.goes phase) := by
  obtain ⟨next, contents, names⟩ := Files.remove_ok done
  have own := sound.owned temporary (by simp [made])
  have sameDestination : files'.names destination = files.names destination := by
    rw [names, Function.update_of_ne own.beside.symm]
  have fewer : ∀ {entry file}, files'.names entry = some file →
      entry ≠ temporary.entry ∧ files.names entry = some file := by
    intro entry file named'
    by_cases same : entry = temporary.entry
    · rw [names, same, Function.update_self] at named'
      cases named'
    · rw [names, Function.update_of_ne same] at named'
      exact ⟨same, named'⟩
  have gone : Gone destination files' call := by
    intro other member entry named'
    obtain rfl : other = temporary := by simpa [made] using member
    exact (own.names entry (fewer named').2).resolve_left (fewer named').1
  have stable : Stable destination files files' := fun file named' =>
    ⟨sameDestination.trans named', congrFun contents file⟩
  refine { sound := ?_, stable := stable, grows := Nat.le_of_eq next.symm, others := ?_,
           fresh := fun _ => .inl, unlinked := fun _ => sameDestination, published := ?_ }
  · refine ⟨fun other member => ?_, sound.source, sound.reported, due gone stable⟩
    have before := sound.owned other member
    refine ⟨?_, before.beside, fun entry named' => before.names entry (fewer named').2, ?_⟩
    · rw [next]
      exact before.old
    · rw [sameDestination]
      exact before.linked
  · intro file _ other
    apply Files.remove_keeps done
    rw [named]
    exact fun same => other temporary (by simp [made]) (Option.some.inj same)
  · exact fun file named' => .inl (sameDestination ▸ named')

theorem reads_acted {load : Load} {file : Nat} {got : Bytes} (sound : CallSound destination files call)
    (due : PhaseSound destination files call (.reading load file got)) (amount : Nat) :
    let chunk := ((files.contents file).drop got.length).take (amount + 1)
    Acted destination files call files
      (if chunk = [] then call.returns (OwnIdentity.decode got)
       else call.goes (.reading load file (got ++ chunk))) := by
  obtain ⟨gone, unmade, named, rest, split⟩ := due
  have left : (files.contents file).drop got.length = rest := by rw [← split, List.drop_left]
  intro chunk
  by_cases ended : chunk = []
  · rw [if_pos ended]
    have nothing : rest = [] := by
      simpa [chunk, left] using ended
    have whole : files.contents file = got := by rw [← split, nothing, List.append_nil]
    refine .quiet (sound.goes ⟨fun identity ok => ⟨file, named, ?_⟩, fun _ => gone⟩) rfl
    rw [whole, ok]
  · rw [if_neg ended]
    refine .quiet (sound.goes ⟨gone, unmade, named, ?_⟩) rfl
    rw [← split, List.prefix_append_right_inj]
    exact left ▸ List.take_prefix _ _

theorem finishes_acted {candidate : Candidate K} {publication : PrivateFileCreate}
    (sound : CallSound destination files call)
    (due : PhaseSound destination files call (.finishing candidate publication)) :
    Acted destination files call files
      { call.published candidate publication with reported := some publication } := by
  cases publication with
  | created =>
    obtain ⟨linked, there⟩ := due.2 rfl
    refine .quiet ⟨sound.owned, sound.source, fun _ => linked, fun identity ok => ?_, fun _ => due.1⟩ rfl
    cases ok
    exact there
  | alreadyExists =>
    refine .quiet ⟨sound.owned, sound.source, ?_, due.1, ?_⟩ rfl
    · intro created
      cases created
    · intro first
      cases first

theorem stage_acted {candidate : Candidate K} {temporary : Temporary} {stage : Stage}
    (sound : CallSound destination files call) (phase : call.phase = .holding candidate temporary stage)
    (draw : Draw K) :
    Acted destination files call (call.proceeds destination files draw).1
      (call.proceeds destination files draw).2 := by
  have due := sound.phase
  rw [phase] at due
  obtain ⟨made, named, staged⟩ := due
  unfold Call.proceeds
  rw [phase]
  cases stage with
  | writing rest =>
    obtain ⟨unlinked, written⟩ := staged
    refine writes_acted sound made unlinked ⟨made, named, ?_⟩
    have appended : (files.append temporary.file (rest.take (draw.amount + 1))).contents temporary.file ++
        rest.drop (draw.amount + 1) = candidate.content := by
      simp [Files.append, written]
    split
    · rename_i ended
      exact ⟨unlinked, by rwa [ended, List.append_nil] at appended⟩
    · exact ⟨unlinked, appended⟩
  | syncing => exact .quiet (sound.goes ⟨made, named, staged⟩) rfl
  | linking =>
    dsimp only
    split
    · rename_i done
      exact links_acted sound made named staged.2 done
    · exact failed_acted sound _ _
  | confirming => exact .quiet (sound.goes ⟨made, named, fun _ => staged.1, staged.2⟩) rfl
  | removing publication =>
    dsimp only
    split
    · rename_i done
      refine removes_acted sound made named done fun gone stable => ⟨gone, fun created => ?_⟩
      have linked := staged.1 created
      have there := (sound.owned temporary (by simp [made])).linked.mpr linked
      have decoded := OwnIdentity.decode_encodeDocument candidate.encoded
      have published : Published destination files candidate.identity :=
        ⟨temporary.file, there, staged.2 ▸ decoded⟩
      exact ⟨linked, published.frame stable⟩
    · exact failed_acted sound _ _
  | cleaning error =>
    dsimp only
    split
    · rename_i done
      exact removes_acted sound made named done fun gone _ => ⟨fun _ ok => (by cases ok), fun _ => gone⟩
    · exact failed_acted sound _ _

theorem proceeds_acted (sound : CallSound destination files call) (draw : Draw K) :
    Acted destination files call (call.proceeds destination files draw).1
      (call.proceeds destination files draw).2 := by
  have due := sound.phase
  cases phase : call.phase with
  | holding candidate temporary stage => exact stage_acted sound phase draw
  | opening load =>
    rw [phase] at due
    simp only [Call.proceeds, phase]
    split
    · rename_i found
      exact .quiet (sound.goes ⟨due.1, due.2, Files.find_ok.mp found, List.nil_prefix⟩) rfl
    · exact failed_acted sound _ _
  | reading load file got =>
    rw [phase] at due
    have read := reads_acted sound due draw.amount
    simp only [Call.proceeds, phase]
    split
    · rename_i ended
      simpa only [ended, if_true] using read
    · rename_i more
      simpa only [more, if_false] using read
  | preparing candidate =>
    rw [phase] at due
    simp only [Call.proceeds, phase]
    exact .quiet (sound.goes due) rfl
  | allocating candidate attempt =>
    rw [phase] at due
    simp only [Call.proceeds, phase]
    split
    · exact .quiet (sound.returns_error fun _ => gone_of_unmade due) rfl
    · split
      · rename_i done
        exact creates_acted sound due done
      · exact failed_acted sound _ _
  | finishing candidate publication =>
    rw [phase] at due
    simp only [Call.proceeds, phase]
    exact finishes_acted sound due
  | returned result =>
    simp only [Call.proceeds, phase]
    exact .quiet sound rfl
  | crashed =>
    simp only [Call.proceeds, phase]
    exact .quiet sound rfl

theorem act_acted (sound : CallSound destination files call) (action : Action K) :
    Acted destination files call (action.act destination files call).1
      (action.act destination files call).2 := by
  cases action with
  | proceed i draw => exact proceeds_acted sound draw
  | fail i keypair error => exact failed_acted sound keypair error
  | crash i => exact .quiet (crashes_sound sound) crashes_made

theorem act_returned {result : Except IdentityFileError (OwnIdentity P K)}
    (phase : call.phase = .returned result) (action : Action K) :
    (action.act destination files call).2.phase = .returned result := by
  cases action with
  | proceed i draw => simp only [Action.act, Call.proceeds, phase]
  | fail i keypair error => simp only [Action.act, Call.failed, phase]
  | crash i => simp only [Action.act, Call.crashes, phase]

/-! ### Whole runs -/

section Runs

variable {state : DataDirectory K}

theorem start_sound (complete : ∀ content, files.read destination = some content → Complete K content) :
    Sound destination (DataDirectory.start K files) where
  complete file named := complete _ (by simp [Files.read, DataDirectory.start] at named ⊢; simp [named])
  calls _ := ⟨List.forall_mem_nil _, fun linked => (by cases linked), fun created => (by cases created),
    gone_of_unmade rfl, fun _ => rfl⟩
  distinct _ _ _ := List.forall_mem_nil _

/-- What one step keeps: for the call that takes it by its own step, for the others by the frame. -/
theorem step_sound (sound : Sound destination state) (action : Action K) :
    Sound destination (step destination state action) := by
  have acted := act_acted (sound.calls action.call) action
  have keeps : ∀ j ≠ action.call, ∀ temporary ∈ (state.calls j).made,
      Files.Keeps temporary.file state.files (step destination state action).files := by
    intro j other temporary member
    apply acted.others _ ((sound.calls j).owned temporary member).old
    exact fun own ownMember => sound.distinct _ j other.symm own ownMember temporary member
  have apart : ∀ j ≠ action.call, ∀ first ∈ ((step destination state action).calls action.call).made,
      ∀ second ∈ (state.calls j).made, first.file ≠ second.file := by
    intro j other first firstMember second secondMember
    simp only [step, Function.update_self] at firstMember
    rcases acted.fresh first firstMember with old | new
    · exact sound.distinct _ j other.symm first old second secondMember
    · rw [new]
      exact (Nat.ne_of_lt ((sound.calls j).owned second secondMember).old).symm
  have unmoved : ∀ j ≠ action.call, (step destination state action).calls j = state.calls j :=
    fun j other => Function.update_of_ne other _ _
  refine ⟨fun file named => ?_, fun j => ?_, fun i j different first firstMember second secondMember => ?_⟩
  · rcases acted.published file named with before | complete
    · exact (acted.stable file before).2 ▸ sound.complete file before
    · exact complete
  · by_cases own : j = action.call
    · subst own
      simpa only [step, Function.update_self] using acted.sound
    · rw [unmoved j own]
      exact (sound.calls j).frame (keeps j own) acted.stable acted.grows
  · by_cases own : i = action.call
    · subst own
      rw [unmoved j different.symm] at secondMember
      exact apart j different.symm first firstMember second secondMember
    · rw [unmoved i own] at firstMember
      by_cases other : j = action.call
      · subst other
        exact (apart i own second secondMember first firstMember).symm
      · rw [unmoved j other] at secondMember
        exact sound.distinct i j different first firstMember second secondMember

theorem Sound.oneIdentity (sound : Sound destination state) : OneIdentity destination state where
  complete content read := by
    obtain ⟨file, named, rfl⟩ := Option.map_eq_some_iff.mp read
    exact sound.complete file named
  same i j first second firstReturned secondReturned := by
    have firstPhase := (sound.calls i).phase
    have secondPhase := (sound.calls j).phase
    rw [firstReturned] at firstPhase
    rw [secondReturned] at secondPhase
    obtain ⟨file, named, decoded⟩ := firstPhase.1 first rfl
    obtain ⟨file', named', decoded'⟩ := secondPhase.1 second rfl
    obtain rfl : file = file' := Option.some.inj (named.symm.trans named')
    exact Except.ok.inj (decoded.symm.trans decoded')
  once i j first second := by
    by_contra different
    have firstLinked := (sound.calls i).reported first
    have secondLinked := (sound.calls j).reported second
    obtain ⟨own, ownMember⟩ := List.exists_mem_of_ne_nil _ ((sound.calls i).source firstLinked)
    obtain ⟨other, otherMember⟩ := List.exists_mem_of_ne_nil _ ((sound.calls j).source secondLinked)
    have named := ((sound.calls i).owned own ownMember).linked.mpr firstLinked
    have named' := ((sound.calls j).owned other otherMember).linked.mpr secondLinked
    exact sound.distinct i j different own ownMember other otherMember
      (Option.some.inj (named.symm.trans named'))
  tidy i result returned clean := by
    have phase := (sound.calls i).phase
    rw [returned] at phase
    exact phase.2 clean

theorem Stable.read (stable : Stable destination files files') {content : Bytes}
    (read : files.read destination = some content) : files'.read destination = some content := by
  obtain ⟨file, named, rfl⟩ := Option.map_eq_some_iff.mp read
  obtain ⟨named', same⟩ := stable file named
  rw [Files.read, named', Option.map_some, same]

theorem step_leaves (sound : Sound destination state) (action : Action K) :
    LeavesDestination destination state action := by
  have acted := act_acted (sound.calls action.call) action
  refine ⟨fun content read => acted.stable.read read, fun unlinked => ?_, fun i result returned => ?_⟩
  · simp only [step, Function.update_self] at unlinked
    have same := acted.unlinked unlinked
    cases before : state.files.read destination with
    | some content => exact acted.stable.read before
    | none =>
      have absent := Option.map_eq_none_iff.mp before
      exact Option.map_eq_none_iff.mpr (same.trans absent)
  · by_cases own : i = action.call
    · subst own
      simpa only [step, Function.update_self] using act_returned returned action
    · simpa only [step, Function.update_of_ne own] using returned

end Runs

/-- Whatever the calls on one path do, in any order and with any failures and crashes: the destination is
absent or complete and never changes, all calls return one identity, and none leaves temporary files. -/
theorem one_identity_per_directory (K : KeyPrimitives P) (destination : Bytes) (files : Files Bytes UInt8)
    (complete : ∀ content, files.read destination = some content → Complete K content)
    (actions : List (Action K)) :
    Throughout (step destination) (OneIdentity destination) (DataDirectory.start K files) actions ∧
      Steps (step destination) (LeavesDestination destination) (DataDirectory.start K files) actions := by
  have invariant :
      Throughout (step destination) (Sound destination) (DataDirectory.start K files) actions :=
    Throughout.of_invariant (start_sound complete) fun _ action sound => step_sound sound action
  exact ⟨invariant.mono fun _ sound => sound.oneIdentity,
    invariant.steps fun _ action sound => step_leaves sound action⟩

/-! ### Two callers at once -/

namespace Race

/-- A length that fits one byte of a postcard varint, and the bytes. -/
def sized (bytes : Bytes) : Bytes := UInt8.ofNat bytes.length :: bytes

def takeSized : Bytes → Bytes × Bytes
  | [] => ([], [])
  | length :: rest => rest.splitAt length.toNat

def documentBytes (document : IdentityDocument) : Bytes :=
  document.nodeId.asBytes ++ sized document.initialPublicKey ++ sized document.privateKey

def readDocument (bytes : Bytes) : IdentityDocument :=
  let (initialPublicKey, rest) := takeSized (bytes.drop 32)
  { nodeId := Identifier.ofNat ((bytes.take 32).foldl (fun value byte => value * 256 + byte.toNat) 0)
    initialPublicKey := initialPublicKey
    privateKey := (takeSized rest).1 }

/-- Key pairs that are their own encodings, and the postcard layout of short documents. -/
def keys : KeyPrimitives Transparent.primitives where
  Keypair := Bytes
  publicKey := id
  toProtobufEncoding := some
  fromProtobufEncoding := some
  toStdvec document :=
    if readDocument (documentBytes document) = document then some (documentBytes document) else none
  fromBytes bytes := some (readDocument bytes)
  publicDecodes _ := rfl
  keypairDecodes _ _ encoded := encoded.symm
  documentDecodes document bytes encoded := by
    split at encoded
    · rename_i reads
      cases encoded
      rw [reads]
    · cases encoded

def emptyDirectory : Files Bytes UInt8 where
  names _ := none
  contents _ := []
  next := 0
  bounded _ _ named := by cases named

def draw (i : Nat) : Draw keys where
  keypair := [UInt8.ofNat (i + 1)]
  suffix := some (Vector.replicate 16 (UInt8.ofNat i))
  amount := 255

def identityKey : Bytes := Stores.asBytes "identity.key"

/-- Both find no file and write a document; call 0 links first, call 1 loads what it has lost to. -/
def actions : List (Action keys) :=
  ([0, 1, 0, 1, 0, 1, 0, 1, 0, 1, 0, 1, 1, 1, 0, 0, 0, 1, 1, 1].map fun i => .proceed i (draw i))

def finished : DataDirectory keys :=
  actions.foldl (step identityKey) (DataDirectory.start keys emptyDirectory)

def returnedNode (i : Nat) : Option NodeId :=
  match (finished.calls i).phase with
  | .returned (.ok identity) => some identity.nodeId
  | _ => none

end Race

theorem loser_returns_winner :
    (Race.returnedNode 0 = some (OwnIdentity.generate (Race.draw 0).keypair).nodeId ∧
      Race.returnedNode 1 = Race.returnedNode 0) ∧ OneIdentity Race.identityKey Race.finished :=
  ⟨by decide +kernel, (one_identity_per_directory Race.keys Race.identityKey Race.emptyDirectory
    (fun _ read => by cases read) Race.actions).1.last⟩

end Lycoris.Overlay.IdentityFile
