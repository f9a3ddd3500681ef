/-
What the app takes from the platform: scalars and their codecs, the signed-in
user, and the ways in which a Swift process ends before its time.

Swift strings are compared up to canonical equivalence, so a `String` below stands
for the canonical form of a Swift one. The number of its characters is another
matter: Swift counts grapheme clusters, whose boundaries the Unicode tables fix,
so `String.count` is a parameter wherever the source reads it.
-/
import FreeFood.Lib.Collection
import FreeFood.Lib.Document
import FreeFood.Lib.UuidText

set_option autoImplicit false

namespace FreeFood.Platform

open Document

/-- A point in time, in ticks of Firestore's timestamp resolution. -/
abbrev Date := ℤ

/-- A `Double`, as its bit pattern. -/
abbrev Double := BitVec 64

/-- A `UUID`. -/
abbrev UUID := BitVec 128

/-- The scalar codecs of the document format. -/
structure Codecs (L : Type) where
  string : Codec L String
  double : Codec L Double
  date : Codec L Date
  uuid : Codec L UUID

/-- The scalars Firestore stores. -/
inductive Leaf where
  | null
  | bool (b : Bool)
  | integer (i : ℤ)
  | double (d : Double)
  | timestamp (t : Date)
  | string (s : String)
deriving DecidableEq

/-- The codecs of `FirestoreEncoder` and `FirestoreDecoder`. A UUID is coded as its
text. The decoder also takes an integer for a `Double`, by the conversion it is
given, which no value the encoder writes goes through. -/
def Codecs.firestore (doubleValue : ℤ → Double) : Codecs Leaf where
  string :=
    { encode := Leaf.string
      decode := fun | .string s => some s | _ => none
      decode_encode := fun _ => rfl }
  double :=
    { encode := Leaf.double
      -- numbers are one kind to the decoder, whichever of the two Firestore stored
      decode := fun | .double d => some d | .integer i => some (doubleValue i) | _ => none
      decode_encode := fun _ => rfl }
  date :=
    { encode := Leaf.timestamp
      decode := fun | .timestamp t => some t | _ => none
      decode_encode := fun _ => rfl }
  uuid :=
    { encode := fun u => Leaf.string (UuidText.uuidString u)
      decode := fun | .string s => UuidText.parse s | _ => none
      decode_encode := UuidText.parse_uuidString }

/-- A user of Firebase Auth. Its `uid` is never empty. -/
@[ext]
structure User where
  uid : String
  uid_ne_empty : uid ≠ ""
deriving DecidableEq

/-- The ways in which the app's process is ended by its own code. -/
inductive Crash where
  | invalidArgument
  | forcedCast
  | forcedUnwrap
  | indexOutOfRange
deriving DecidableEq

/-- What an `Alert` displays. -/
structure Alert where
  title : String
  message : String
deriving DecidableEq

/-- `.alert(isPresented:)`, where what is displayed is made of an optional value that
is unwrapped by force. It is made only while the alert is presented. -/
def presented {α : Type} (isPresented : Bool) (value : Option α) (content : α → Alert) :
    Option (Except Crash Alert) :=
  if isPresented then
    match value with
    | none => some (.error .forcedUnwrap)
    | some a => some (.ok (content a))
  else none

/-- An alert can be made whenever it is presented, exactly if its value is there then. -/
theorem presented_ne_error_iff {α : Type} (isPresented : Bool) (value : Option α)
    (content : α → Alert) :
    (∀ crash, presented isPresented value content ≠ some (.error crash))
      ↔ (isPresented = true → value.isSome) := by
  rcases isPresented with _ | _
  · simp [presented]
  · rcases value with _ | a
    · simp [presented]
    · simp [presented]

/-- `CollectionReference.document(_:)`: an empty id raises an invalid-argument
exception. -/
def document (id : String) : Except Crash String :=
  if id = "" then .error .invalidArgument else .ok id

@[simp] theorem document_empty : document "" = .error .invalidArgument := rfl

@[simp] theorem document_uid (u : User) : document u.uid = .ok u.uid := if_neg u.uid_ne_empty

end FreeFood.Platform
