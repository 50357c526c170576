import Lycoris.Lib.Files
import Lycoris.Lib.Runs
import Lycoris.Overlay.Record
import Lycoris.Stores.Versioned

/-!
The identity file of a node (`overlay/src/identity.rs`) and its publication without replacing a winner
(`core/src/fs.rs`). Calls of `load_or_generate` on one path run side by side; each of their steps is one
file operation, which may fail, and any of them may crash between two steps.
-/

namespace Lycoris.Overlay
open Lib

/-! ### The document -/

structure IdentityDocument where
  nodeId : NodeId
  initialPublicKey : Bytes
  privateKey : Bytes
  deriving DecidableEq

/-- What the identity file takes from other crates, the libp2p key pairs and the postcard encoding of the
document, with what they document: what they encode they decode. -/
structure KeyPrimitives (P : Primitives) where
  Keypair : Type
  publicKey : Keypair → P.PublicKey
  toProtobufEncoding : Keypair → Option Bytes
  fromProtobufEncoding : Bytes → Option Keypair
  toStdvec : IdentityDocument → Option Bytes
  fromBytes : Bytes → Option IdentityDocument
  publicDecodes : ∀ key, P.decodePublicKey (P.encodePublicKey key) = some key
  keypairDecodes : ∀ keypair bytes, toProtobufEncoding keypair = some bytes →
    fromProtobufEncoding bytes = some keypair
  documentDecodes : ∀ document bytes, toStdvec document = some bytes → fromBytes bytes = some document

/-- An `io::Error`: of the system, or with a text of the code. -/
inductive IoError where
  | os (kind : ErrorKind)
  | custom (kind : ErrorKind) (message : String)

def IoError.kind : IoError → ErrorKind
  | .os kind => kind
  | .custom kind _ => kind

/-- The errors of the identity file; `identity` holds those of keys and identifiers. -/
inductive IdentityFileError where
  | io (error : IoError)
  | serialization
  | identity (error : IdentityError)

def validateInitialKey (P : Primitives) (nodeId : NodeId) (initialPublicKey : Bytes) :
    Except IdentityError Unit := do
  let _ ← decodePublicKey P initialPublicKey
  let derived := NodeId.fromInitialPublicKey P initialPublicKey
  ensure (derived = nodeId) (.nodeIdMismatch nodeId derived)

/-- A `NodeIdentity` with its key pair. Every constructor of the source derives or checks the node id. -/
structure OwnIdentity (P : Primitives) (K : KeyPrimitives P) where
  nodeId : NodeId
  initialPublicKey : Bytes
  keypair : K.Keypair
  valid : validateInitialKey P nodeId initialPublicKey = .ok ()

variable {P : Primitives} {K : KeyPrimitives P}

theorem validateInitialKey_ok {nodeId : NodeId} {initialPublicKey : Bytes} {u : Unit} :
    validateInitialKey P nodeId initialPublicKey = .ok u ↔
      (∃ key, P.decodePublicKey initialPublicKey = some key) ∧
        NodeId.fromInitialPublicKey P initialPublicKey = nodeId := by
  simp [validateInitialKey, decodePublicKey, bind_ok]

namespace OwnIdentity

/-- `generate`, with the key pair it draws. -/
def generate (keypair : K.Keypair) : OwnIdentity P K where
  nodeId := NodeId.fromInitialPublicKey P (P.encodePublicKey (K.publicKey keypair))
  initialPublicKey := P.encodePublicKey (K.publicKey keypair)
  keypair := keypair
  valid := validateInitialKey_ok.mpr ⟨⟨_, K.publicDecodes _⟩, rfl⟩

def encodeDocument (identity : OwnIdentity P K) : Except IdentityFileError Bytes := do
  let privateKey ← okOr (K.toProtobufEncoding identity.keypair) (.identity .keyEncoding)
  okOr (K.toStdvec ⟨identity.nodeId, identity.initialPublicKey, privateKey⟩) .serialization

def decode (bytes : Bytes) : Except IdentityFileError (OwnIdentity P K) := do
  let document ← okOr (K.fromBytes bytes) .serialization
  match valid : validateInitialKey P document.nodeId document.initialPublicKey with
  | .error error => .error (.identity error)
  | .ok () =>
    let keypair ← okOr (K.fromProtobufEncoding document.privateKey) (.identity .keyEncoding)
    .ok ⟨document.nodeId, document.initialPublicKey, keypair, valid⟩

/-- What an identity is encoded to reads back as the identity. -/
theorem decode_encodeDocument {identity : OwnIdentity P K} {content : Bytes}
    (encoded : identity.encodeDocument = .ok content) : decode content = .ok identity := by
  obtain ⟨privateKey, exported, written⟩ := bind_ok.mp encoded
  have keypair := K.keypairDecodes _ _ (okOr_ok.mp exported)
  have document := K.documentDecodes _ _ (okOr_ok.mp written)
  obtain ⟨nodeId, initialPublicKey, keypair', valid⟩ := identity
  unfold decode
  rw [document]
  simp only [okOr, bind, Except.bind]
  split
  · simp_all
  · simp_all

end OwnIdentity

namespace IdentityFile

/-! ### Temporary files -/

def tempCreateAttempts : Nat := 16

/-- `hex::encode`. -/
def hexEncode (bytes : List UInt8) : String :=
  String.ofList (bytes.flatMap fun byte => [(byte.toNat / 16).digitChar, (byte.toNat % 16).digitChar])

/-- The entry of a temporary file beside the destination, whose name need not be UTF-8. -/
def temporaryEntry (destination : Bytes) (suffix : Vector UInt8 16) : Bytes :=
  let name := (Stores.readToString destination).getD "private"
  Stores.asBytes ("." ++ name ++ "." ++ hexEncode suffix.toList ++ ".tmp")

theorem temporaryEntry_ne (destination : Bytes) (suffix : Vector UInt8 16) :
    temporaryEntry destination suffix ≠ destination := by
  intro same
  have read : Stores.readToString destination = _ :=
    (congrArg Stores.readToString same.symm).trans (Stores.readToString_asBytes _)
  cases named : Stores.readToString destination with
  | none => simp [named] at read
  | some name =>
    -- the entry is longer than the name it is made from
    rw [named, Option.some.injEq, Option.getD_some] at read
    have length := congrArg String.length read
    simp only [String.length_append] at length
    have dot : ".tmp".length = 4 := rfl
    omega

/-! ### Calls -/

inductive PrivateFileCreate where
  | created
  | alreadyExists

/-- Whether a call loads the file at its start or after it has lost. -/
inductive Load where
  | first
  | again

/-- The temporary file of a call: its entry and the file it was created as. -/
structure Temporary where
  entry : Bytes
  file : Nat

/-- A candidate and the document it is published as. -/
structure Candidate (K : KeyPrimitives P) where
  identity : OwnIdentity P K
  content : Bytes
  encoded : identity.encodeDocument = .ok content

def Candidate.encode (identity : OwnIdentity P K) : Except IdentityFileError (Candidate K) :=
  match encoded : identity.encodeDocument with
  | .ok content => .ok ⟨identity, content, encoded⟩
  | .error error => .error error

/-- The operation that is due while the temporary file is there. -/
inductive Stage where
  /-- `write_all`, with what is left of the document. -/
  | writing (rest : Bytes)
  | syncing
  | linking
  /-- `sync_parent` after the own link. -/
  | confirming
  | removing (publication : PrivateFileCreate)
  /-- The removal on the way out with an error, whose own failure is ignored. -/
  | cleaning (error : IoError)

/-- The operation that is due in a call. -/
inductive Phase (K : KeyPrimitives P) where
  | opening (load : Load)
  | reading (load : Load) (file : Nat) (got : Bytes)
  | preparing (candidate : Candidate K)
  | allocating (candidate : Candidate K) (attempt : Nat)
  | holding (candidate : Candidate K) (temporary : Temporary) (stage : Stage)
  /-- The last `sync_parent`. -/
  | finishing (candidate : Candidate K) (publication : PrivateFileCreate)
  | returned (result : Except IdentityFileError (OwnIdentity P K))
  | crashed

/-- A call of `load_or_generate` with what it has done so far. -/
structure Call (K : KeyPrimitives P) where
  phase : Phase K
  /-- The temporary files it has created. -/
  made : List Temporary
  /-- Its own hard link has been made. -/
  linked : Bool
  /-- What its `write_private_file_if_absent` reported. -/
  reported : Option PrivateFileCreate
  removalFailed : Bool

/-- What a step draws: the key pair of `generate`, the suffix of `SystemRandom` and how much one `read` or
`write` moves beyond the first byte. -/
structure Draw (K : KeyPrimitives P) where
  keypair : K.Keypair
  suffix : Option (Vector UInt8 16)
  amount : Nat

namespace Call

def goes (call : Call K) (phase : Phase K) : Call K := { call with phase := phase }

def returns (call : Call K) (result : Except IdentityFileError (OwnIdentity P K)) : Call K :=
  call.goes (.returned result)

/-- `load` has failed: without a file at the start, a candidate is generated. -/
def loadFailed (call : Call K) (load : Load) (keypair : K.Keypair) (error : IoError) : Call K :=
  match load, error.kind with
  | .first, .notFound =>
    match Candidate.encode (OwnIdentity.generate keypair) with
    | .ok candidate => call.goes (.preparing candidate)
    | .error failure => call.returns (.error failure)
  | _, _ => call.returns (.error (.io error))

def createFailed (call : Call K) (candidate : Candidate K) (attempt : Nat) (error : IoError) : Call K :=
  if error.kind = .alreadyExists then
    if attempt + 1 < tempCreateAttempts then call.goes (.allocating candidate (attempt + 1))
    else call.returns
      (.error (.io (.custom .alreadyExists "private file temporary name allocation exhausted")))
  else call.returns (.error (.io error))

/-- The end of `publish_candidate`: the winner returns its candidate, a loser loads the file. -/
def published (call : Call K) (candidate : Candidate K) : PrivateFileCreate → Call K
  | .created => call.returns (.ok candidate.identity)
  | .alreadyExists => call.goes (.opening .again)

/-- The operation that is due has failed, without effect. -/
def failed (call : Call K) (keypair : K.Keypair) (error : IoError) : Call K :=
  match call.phase with
  | .opening load => call.loadFailed load keypair error
  | .reading load _ _ => call.loadFailed load keypair error
  | .preparing _ => call.returns (.error (.io error))
  | .allocating candidate attempt => call.createFailed candidate attempt error
  | .holding candidate temporary stage =>
    match stage with
    | .writing _ | .syncing | .confirming => call.goes (.holding candidate temporary (.cleaning error))
    | .linking =>
      if error.kind = .alreadyExists then
        call.goes (.holding candidate temporary (.removing .alreadyExists))
      else call.goes (.holding candidate temporary (.cleaning error))
    | .removing _ => { call.returns (.error (.io error)) with removalFailed := true }
    | .cleaning first => { call.returns (.error (.io first)) with removalFailed := true }
  | .finishing _ _ => call.returns (.error (.io error))
  | .returned _ | .crashed => call

/-- The operation that is due is carried out; the directory may refuse it. -/
def proceeds (destination : Bytes) (files : Files Bytes UInt8) (call : Call K) (draw : Draw K) :
    Files Bytes UInt8 × Call K :=
  let refused (kind : ErrorKind) := (files, call.failed draw.keypair (.os kind))
  match call.phase with
  | .opening load =>
    match files.find destination with
    | .ok file => (files, call.goes (.reading load file []))
    | .error kind => refused kind
  | .reading load file got =>
    let chunk := ((files.contents file).drop got.length).take (draw.amount + 1)
    -- a read of nothing is the end of the file
    if chunk = [] then (files, call.returns (OwnIdentity.decode got))
    else (files, call.goes (.reading load file (got ++ chunk)))
  | .preparing candidate => (files, call.goes (.allocating candidate 0))
  | .allocating candidate _ =>
    match draw.suffix with
    | none => (files, call.returns
        (.error (.io (.custom .other "private file temporary name generation failed"))))
    | some suffix =>
      match files.createNew (temporaryEntry destination suffix) with
      | .ok (files', file) =>
        let temporary := ⟨temporaryEntry destination suffix, file⟩
        (files', { call.goes (.holding candidate temporary (.writing candidate.content)) with
          made := temporary :: call.made })
      | .error kind => refused kind
  | .holding candidate temporary stage =>
    match stage with
    | .writing rest =>
      let left := rest.drop (draw.amount + 1)
      (files.append temporary.file (rest.take (draw.amount + 1)),
        call.goes (.holding candidate temporary (if left = [] then .syncing else .writing left)))
    | .syncing => (files, call.goes (.holding candidate temporary .linking))
    | .linking =>
      match files.hardLink temporary.entry destination with
      | .ok files' => (files', { call.goes (.holding candidate temporary .confirming) with linked := true })
      | .error kind => refused kind
    | .confirming => (files, call.goes (.holding candidate temporary (.removing .created)))
    | .removing publication =>
      match files.remove temporary.entry with
      | .ok files' => (files', call.goes (.finishing candidate publication))
      | .error kind => refused kind
    | .cleaning error =>
      match files.remove temporary.entry with
      | .ok files' => (files', call.returns (.error (.io error)))
      | .error kind => refused kind
  | .finishing candidate publication =>
    (files, { call.published candidate publication with reported := some publication })
  | .returned _ | .crashed => (files, call)

/-- Its process dies. A call that has returned has returned. -/
def crashes (call : Call K) : Call K :=
  match call.phase with
  | .returned _ => call
  | _ => call.goes .crashed

end Call

/-! ### The directory and its callers -/

/-- The directory of the path with the calls of all processes, those after restarts included. -/
structure DataDirectory (K : KeyPrimitives P) where
  files : Files Bytes UInt8
  calls : Nat → Call K

def DataDirectory.start (K : KeyPrimitives P) (files : Files Bytes UInt8) : DataDirectory K where
  files := files
  calls := fun _ => { phase := .opening .first, made := [], linked := false, reported := none,
                      removalFailed := false }

inductive Action (K : KeyPrimitives P) where
  | proceed (call : Nat) (draw : Draw K)
  | fail (call : Nat) (keypair : K.Keypair) (error : IoError)
  | crash (call : Nat)

def Action.call : Action K → Nat
  | .proceed i _ | .fail i _ _ | .crash i => i

/-- A step of one call, on the directory and itself. -/
def Action.act (destination : Bytes) (files : Files Bytes UInt8) (call : Call K) :
    Action K → Files Bytes UInt8 × Call K
  | .proceed _ draw => call.proceeds destination files draw
  | .fail _ keypair error => (files, call.failed keypair error)
  | .crash _ => (files, call.crashes)

def step (destination : Bytes) (state : DataDirectory K) (action : Action K) : DataDirectory K :=
  let acted := action.act destination state.files (state.calls action.call)
  { files := acted.1, calls := Function.update state.calls action.call acted.2 }

end IdentityFile

end Lycoris.Overlay
