import ExamplePrograms.Lib.SharedObject
import ExamplePrograms.Rust.TraitUsage
import Mathlib.Logic.Function.Basic

/-!
# A store of redirects

`simplekv/src/main.rs` serves one tree over HTTP: a `POST` sets the URL of a key and a `GET` redirects to
it. The handlers run as tasks, and each of them does one operation on the tree, so that requests at the
same time are calls of a shared object. For the clients the tree is then one map from keys to URLs, on
which every request takes effect at once, between its arrival and its response.

The model begins behind the router, with a path and a body that are strings. `Fate` is how an operation on
the tree ends; after an error the tree may hold what was to be written or not. A response is missing where
the handler panics.
-/

set_option autoImplicit false

namespace ExamplePrograms.Rust.SimpleKv

open ExamplePrograms.Rust.TraitUsage (RString Bytes Codec Sled encodeString sortedTree sortedTree_lawful)
open ExamplePrograms.Lib

/-- The record that is stored for a key. -/
structure Entry where
  url : RString

/-- The response to a request: its status, its `Location` and its body. -/
structure Response where
  status : Nat
  location : Option RString
  body : RString

/-- A request that the router hands to one of the handlers. -/
inductive Request where
  | get (key : RString)
  | post (key url : RString)

/-- How the operation on the tree ends. -/
inductive Fate where
  | done
  | failed (err : RString) (written : Bool)

/-- What the tree says to a handler. -/
inductive Answer where
  | got (r : Except RString (Option Bytes))
  | inserted (r : Except RString Unit)

/-- The response where the key has no entry. -/
def notFound : Response := ⟨404, none, ⟨"Entry Not Found", by decide⟩⟩

/-- The response to an entry that was stored. -/
def created : Response := ⟨200, none, ⟨"ok", by decide⟩⟩

/-! ## The handlers -/

section Handlers

variable {Tree : Type} (sled : Sled Tree) (codec : Codec Entry) (temporary : RString → Option Response)

/-- `Redirect::temporary` panics at an URL that cannot stand in a header. -/
def Entry.intoResponse (entry : Entry) : Option Response := temporary entry.url

/-- `redirect_link` behind the operation on the tree. -/
def redirectLink : Except RString (Option Bytes) → Option Response
  | .ok (some entry) => (codec.deserialize entry).bind (Entry.intoResponse temporary)
  | .ok none => some notFound
  | .error _ => none

/-- `set_redirect` behind the operation on the tree. -/
def setRedirect : Except RString Unit → Option Response
  | .error err => some ⟨500, none, err⟩
  | .ok () => some created

/-- The operation of a handler on the tree. -/
def operate (links : Tree) : Request → Fate → Tree × Answer
  | .get key, .done => (links, .got (.ok (sled.get links key.bytes)))
  | .get _, .failed err _ => (links, .got (.error err))
  | .post key url, .done => (sled.set links key.bytes (codec.serialize ⟨url⟩), .inserted (.ok ()))
  | .post key url, .failed err written =>
      (if written then sled.set links key.bytes (codec.serialize ⟨url⟩) else links,
        .inserted (.error err))

/-- The response of a handler. -/
def respond : Answer → Option Response
  | .got r => redirectLink codec temporary r
  | .inserted r => setRedirect r

/-- The server with the requests it has got. -/
abbrev Server (Tree : Type) := SharedObject.State Tree Request Fate Answer

/-- The service run over a list of acts. -/
abbrev serve (c : Server Tree) (acts : List (SharedObject.Act Request Fate)) : Option (Server Tree) :=
  SharedObject.run (operate sled codec) c acts

end Handlers

/-! ## The map -/

/-- What the tree is for. -/
abbrev Links := RString → Option RString

/-- A request on the map, with the response. -/
def handle (temporary : RString → Option Response) (links : Links) : Request → Fate → Links × Option Response
  | .get key, .done =>
      (links,
        match links key with
        | some url => temporary url
        | none => some notFound)
  | .get _, .failed _ _ => (links, none)
  | .post key url, .done => (Function.update links key (some url), some created)
  | .post key url, .failed err written =>
      (if written then Function.update links key (some url) else links, some ⟨500, none, err⟩)

section Results

variable {Tree : Type} {sled : Sled Tree} {codec : Codec Entry} {temporary : RString → Option Response}

/-- The tree holds the URLs of the map, under the bytes of their keys. -/
def Holds (sled : Sled Tree) (tree : Tree) (links : Links) : Prop :=
  ∀ key, sled.get tree key.bytes = (links key).map encodeString

/-- The tree holds the links behind an insertion. -/
theorem Holds.set (hs : sled.Lawful) {tree : Tree} {links : Links} (h : Holds sled tree links)
    (key url : RString) :
    Holds sled (sled.set tree key.bytes (encodeString url)) (Function.update links key (some url)) := by
  intro key'
  rw [hs.get_set]
  by_cases hkey : key' = key
  · subst hkey
    rw [if_pos rfl, Function.update_self]
    rfl
  · have hbytes : key'.bytes ≠ key.bytes := fun heq => hkey (TraitUsage.RString.ext_bytes heq)
    rw [if_neg hbytes, Function.update_of_ne hkey, h key']

/-- The operation does to the tree what the request does to the map, and the handler makes the response of
the map from what the tree says. -/
theorem operate_refines (temporary : RString → Option Response) (hs : sled.Lawful)
    (hcodec : codec.Lawful fun entry => encodeString entry.url) (tree : Tree) (links : Links) (request : Request) (fate : Fate) (h : Holds sled tree links) :
    Holds sled (operate sled codec tree request fate).1 (handle temporary links request fate).1 ∧
      respond codec temporary (operate sled codec tree request fate).2 =
        (handle temporary links request fate).2 := by
  cases request with
  | get key =>
    cases fate with
    | done =>
      refine ⟨h, ?_⟩
      rw [operate, respond, h key, handle]
      cases links key with
      | none => rfl
      | some url =>
        -- the value under the key is an entry, which can be decoded
        have hentry : codec.deserialize (encodeString url) = some ⟨url⟩ := hcodec.deserialize ⟨url⟩
        rw [Option.map_some, redirectLink, hentry]
        rfl
    | failed err written => exact ⟨h, rfl⟩
  | post key url =>
    have hvalue : codec.serialize ⟨url⟩ = encodeString url := hcodec.serialize ⟨url⟩
    cases fate with
    | done =>
      rw [operate, hvalue]
      exact ⟨h.set hs key url, rfl⟩
    | failed err written =>
      rw [operate, hvalue, handle]
      cases written with
      | false => exact ⟨h, rfl⟩
      | true => exact ⟨h.set hs key url, rfl⟩

/-- The calls of a history, by any of its results. -/
theorem map_call_mapResult (es : List (SharedObject.Effect Request Fate Answer)) :
    (es.map (SharedObject.Effect.mapResult (respond codec temporary))).map SharedObject.Effect.call =
      es.map SharedObject.Effect.call := by
  rw [List.map_map]
  rfl

/-- The handler met no error of the tree. -/
def Answer.isOk : Answer → Bool
  | .got (.ok _) => true
  | .got (.error _) => false
  | .inserted (.ok ()) => true
  | .inserted (.error _) => false

/-- An operation without an error was carried out. -/
theorem operate_done {tree : Tree} {request : Request} {fate : Fate}
    (h : (operate sled codec tree request fate).2.isOk = true) : fate = .done := by
  cases fate with
  | done => rfl
  | failed err written =>
    cases request with
    | get key => cases h
    | post key url => cases h

/-- The link of a key behind an insertion. -/
theorem update_key (links : Links) (key key' url : RString) :
    Function.update links key' (some url) key = links key ∨
      key' = key ∧ Function.update links key' (some url) key = some url := by
  by_cases hkey : key = key'
  · subst hkey
    exact Or.inr ⟨rfl, Function.update_self _ _ _⟩
  · exact Or.inl (Function.update_of_ne hkey _ _)

/-- A request leaves a key alone or sets it. -/
theorem handle_key (links : Links) (request : Request) (fate : Fate) (key : RString) :
    (handle temporary links request fate).1 key = links key ∨
      ∃ url, request = .post key url ∧ (handle temporary links request fate).1 key = some url := by
  cases request with
  | get key' =>
    cases fate with
    | done => exact Or.inl rfl
    | failed err written => exact Or.inl rfl
  | post key' url =>
    have hupdate := update_key links key key' url
    cases fate with
    | done =>
      rcases hupdate with hkept | ⟨rfl, hset⟩
      · exact Or.inl hkept
      · exact Or.inr ⟨url, rfl, hset⟩
    | failed err written =>
      cases written with
      | false => exact Or.inl rfl
      | true =>
        rcases hupdate with hkept | ⟨rfl, hset⟩
        · exact Or.inl hkept
        · exact Or.inr ⟨url, rfl, hset⟩

/-- A key keeps its URL or has that of a request of the run. -/
theorem posted_since {es : List (SharedObject.Effect Request Fate (Option Response))} {links links' : Links}
    (h : SharedObject.Sequential (handle temporary) links es links') {key url : RString}
    (hkey : links key = some url) :
    ∃ url', links' key = some url' ∧ (url' = url ∨ ∃ e ∈ es, e.op = .post key url') := by
  induction h with
  | nil => exact ⟨url, hkey, Or.inl rfl⟩
  | @snoc s es e hseq hresult ih =>
    rcases handle_key s e.op e.input key with hkept | ⟨url', hop, hset⟩
    · obtain ⟨url', hurl, hfrom⟩ := ih
      refine ⟨url', hkept.trans hurl, hfrom.imp_right ?_⟩
      rintro ⟨e', he', hop⟩
      exact ⟨e', List.mem_append_left _ he', hop⟩
    · exact ⟨url', hset, Or.inr ⟨e, List.mem_concat_self, hop⟩⟩

end Results

/-! ## A server -/

/-- A codec for the entries. -/
def entryCodec : Codec Entry := TraitUsage.recordCodec Entry.url Entry.mk

/-- The codec keeps the laws. -/
theorem entryCodec_lawful : entryCodec.Lawful fun entry => encodeString entry.url :=
  TraitUsage.recordCodec_lawful Entry.url Entry.mk fun _ => rfl

/-- A `Redirect::temporary` that takes every URL. -/
def redirect (url : RString) : Option Response := some ⟨307, some url, ⟨"", by decide⟩⟩

/-- The key `home`. -/
def home : RString := ⟨"home", by decide⟩

/-- The URL `https://localhost`. -/
def page : RString := ⟨"https://localhost", by decide⟩

/-- The empty tree holds no links. -/
theorem holds_empty : Holds sortedTree sortedTree.empty fun _ => none := fun _ => rfl

/-- The server behind the answer to a `POST`, and behind the answer to a `GET` of its key. -/
def posted : List (SharedObject.Act Request Fate) := [.make (.post home page), .effect 0 .done, .answer 0]

/-- A request that reads the key. -/
def gotten : List (SharedObject.Act Request Fate) := [.make (.get home), .effect 1 .done, .answer 1]

end ExamplePrograms.Rust.SimpleKv
