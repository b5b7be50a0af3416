import Depot.Proofs.Action
import Depot.Proofs.Transfer
import Depot.Store.Operations

/-!
This module contains the theory of what is the same for all kinds of stores: operations give and
leave what the kind of the store does, and once an object is opened, reading it gives its bytes
decoded by the scheme of the store.
-/

namespace Depot

namespace Reader

def decoded (scheme : Codec.Scheme) (raw : ByteArray) : Except Failure ByteArray :=
  match (Codec.Body.ofBytes scheme raw).readAll.1 with
  | .ok body => .ok body
  | .error fault => .error { reason := .codec fault }

theorem decoded_of_decodes {scheme : Codec.Scheme} {raw body : ByteArray}
    (h : scheme.Decodes raw body) : decoded scheme raw = .ok body := by
  unfold Codec.Scheme.Decodes at h
  unfold decoded
  rw [h]

def Calm (r : Reader) : Prop :=
  ∀ layer ∈ r.layers, layer.closed = false ∧ layer.hook.failure = none

theorem closeLayers_of_calm {layers : List Layer}
    (h : ∀ layer ∈ layers, layer.closed = false ∧ layer.hook.failure = none) (r : Reader) :
    (closeLayers layers r).1 = none := by
  induction layers with
  | nil => rfl
  | cons layer inner ih =>
    rw [List.forall_mem_cons] at h
    rw [closeLayers, h.1.1, if_neg Bool.false_ne_true]
    simp only [h.1.2, ih h.2]
    rfl

theorem close_of_calm {r : Reader} (h : r.Calm) : r.close.1 = .ok () := by
  have hnone := closeLayers_of_calm h r
  unfold close
  simp only [hnone]

theorem layers_readAll (r : Reader) : r.readAll.2.layers = r.layers := by
  unfold readAll answer
  split
  · rfl
  · dsimp only
    split
    · rfl
    · rfl

theorem readAndClose_of_calm {r : Reader} (hopen : r.isClosed = false) (h : r.Calm) :
    r.readAndClose.1 = r.readAll.1 := by
  have hcalm : r.readAll.2.Calm := by
    unfold Calm
    rw [layers_readAll]
    exact h
  have hclose := close_of_calm hcalm
  unfold readAndClose
  rw [hopen, if_neg Bool.false_ne_true]
  dsimp only
  split
  next failure r' hfailed =>
    rw [hfailed] at hclose
    cases hclose
  next => rfl

theorem readAll_of_open {r : Reader} (h : r.rawClosed = false) :
    r.readAll.1
      =
    match r.body.readAll.1 with
    | .ok body => .ok body
    | .error fault => .error { reason := .codec fault } := by
  unfold readAll answer
  rw [h, if_neg Bool.false_ne_true]
  dsimp only
  cases r.body.readAll.1 with
  | ok body => rfl
  | error fault => rfl

theorem readAndClose_ofBytes (scheme : Codec.Scheme) (raw : ByteArray) :
    (ofBytes scheme raw).readAndClose.1 = decoded scheme raw := by
  rw [readAndClose_of_calm rfl (by simp [Calm, ofBytes]), readAll_of_open rfl]
  rfl

theorem readAndClose_wrap (scheme : Codec.Scheme) (raw : ByteArray) (name : String) :
    ((ofBytes scheme raw).wrap { announces := some name }).readAndClose.1 = decoded scheme raw := by
  rw [readAndClose_of_calm rfl (by simp [Calm, wrap, ofBytes]), readAll_of_open rfl]
  rfl

end Reader

namespace Store

open Depot.Action

variable {store : Store} {name : String} {world world' : World}

def raw (store : Store) (source : Source) : ByteArray :=
  (compressedCopy source {} store.compression).sink.close.bytes

theorem decodes_raw {source : Source} {body : ByteArray} (h : source.content = .ok body) :
    store.compression.Decodes (store.raw source) body :=
  (compressedCopy_of_ok store.compression h).2

theorem noted_yields {act : Action Bool} {level : Level} {topic : Topic} {message : String}
    {world' : World} {result : Except Failure Bool} (h : act.Yields world result world') :
    (do
      let written ← act
      if written then note level topic message
      return written : Action Bool).Yields world result world' := by
  cases result with
  | error failure => exact h.bind_error
  | ok written =>
    refine h.bind ?_
    cases written with
    | true =>
      refine (note_yields level topic message world').bind ?_
      exact .pure true world'
    | false => exact .pure false world'

theorem markStream_yields (store : Store) (closed : Bool) (world : World) :
    (store.markStream closed).Yields world (.ok ()) world := by
  have hmark : (modify fun world : World => { world with streamClosed := some closed } :
      Action Unit).Yields world (.ok ()) world := by
    apply Yields.modify
    intro records
    exact ⟨{ records with streamClosed := some closed }, rfl⟩
  unfold markStream
  cases store.backend with
  | files => exact .pure _ world
  | gcs => exact hmark
  | s3 => exact hmark

theorem finish_yields {α : Type} (store : Store) (used : Except Failure α × Reader)
    (world : World) : (store.finish used).Yields world used.1 world := by
  unfold finish
  refine (Yields.forIn ?_).bind ?_
  · intro run
    cases run.hook.announces with
    | some name => exact (note_yields _ _ _ world).bind (.pure _ world)
    | none => exact .pure _ world
  · exact (markStream_yields store _ world).bind (.ofResult used.1 world)

theorem openReader_yields_of_error {failure : Failure}
    (h : (store.openRaw name).Yields world (.error failure) world') :
    (store.openReader name).Yields world (.error failure) world' := by
  unfold openReader tracedBy
  exact traced_yields h.bind_error

theorem readBytes_yields_of_error {failure : Failure}
    (h : (store.openRaw name).Yields world (.error failure) world') :
    (store.readBytes name).Yields world (.error failure) world' := by
  unfold readBytes
  exact (openReader_yields_of_error h).bind_error

theorem openReader_yields_of_ok {raw : ByteArray}
    (h : (store.openRaw name).Yields world (.ok raw) world') :
    ∃ reader, (store.openReader name).Yields world (.ok reader) world'
      ∧ reader.body = .ofBytes store.compression raw
      ∧ reader.readAndClose.1 = Reader.decoded store.compression raw := by
  refine ⟨if world'.debug then (Reader.ofBytes store.compression raw).wrap { announces := some name }
    else Reader.ofBytes store.compression raw, ?_, ?_⟩
  · unfold openReader tracedBy
    refine traced_yields (h.bind ((markStream_yields store false world').bind ?_))
    apply Yields.get_bind
    intro records
    exact .pure _ world'
  · split
    · exact ⟨rfl, Reader.readAndClose_wrap _ _ _⟩
    · exact ⟨rfl, Reader.readAndClose_ofBytes _ _⟩

theorem readBytes_yields_of_ok {raw : ByteArray}
    (h : (store.openRaw name).Yields world (.ok raw) world') :
    (store.readBytes name).Yields world (Reader.decoded store.compression raw) world' := by
  obtain ⟨reader, hopen, -, hread⟩ := openReader_yields_of_ok h
  unfold readBytes
  rw [← hread]
  exact hopen.bind (finish_yields store _ world')

theorem write_yields {source : Source} {overwrite : Option Bool} {result : Except Failure Bool}
    (h : Yields
      (match store.backend with
        | .files => Files.write store name source (store.mayReplace overwrite)
        | .gcs => Gcs.write store name source (store.mayReplace overwrite)
        | .s3 => S3.write store name source (store.mayReplace overwrite)) world result world') :
    (store.write name source overwrite).Yields world result world' :=
  traced_yields h

theorem delete_yields {result : Except Failure Unit}
    (h : Yields
      (match store.backend with
        | .files => Files.delete store name
        | .gcs => Gcs.delete store name
        | .s3 => S3.delete store name) world result world') :
    (store.delete name).Yields world result world' :=
  traced_yields h

theorem contains_yields {result : Except Failure Bool}
    (h : Yields
      (match store.backend with
        | .files => Files.contains store name
        | .gcs => Gcs.contains store name
        | .s3 => S3.contains store name) world result world') :
    (store.contains name).Yields world result world' :=
  traced_yields h

section Backend

variable (hfiles : store.backend = .files)

include hfiles

theorem write_yields_of_files {source : Source} {overwrite : Option Bool}
    {result : Except Failure Bool}
    (h : (Files.write store name source (store.mayReplace overwrite)).Yields world result world') :
    (store.write name source overwrite).Yields world result world' := by
  apply write_yields
  rw [hfiles]
  exact h

theorem openRaw_yields_of_files {result : Except Failure ByteArray}
    (h : (Files.openRaw store name).Yields world result world') :
    (store.openRaw name).Yields world result world' := by
  unfold openRaw
  rw [hfiles]
  exact h

theorem delete_yields_of_files {result : Except Failure Unit}
    (h : (Files.delete store name).Yields world result world') :
    (store.delete name).Yields world result world' := by
  apply delete_yields
  rw [hfiles]
  exact h

theorem contains_yields_of_files {result : Except Failure Bool}
    (h : (Files.contains store name).Yields world result world') :
    (store.contains name).Yields world result world' := by
  apply contains_yields
  rw [hfiles]
  exact h

end Backend

theorem walkFrom_yields (store : Store) (under start : String) (visitor : Visitor) (world : World) :
    (store.walkFrom under start visitor).Yields world (.ok (store.walkOf world under start visitor))
      world := by
  have hcalls : ∀ calls, (modify fun world : World => { world with calls := world.calls ++ calls } :
      Action PUnit).Yields world (.ok ()) world := by
    intro calls
    apply Yields.modify
    intro records
    exact ⟨{ records with calls := records.calls ++ calls }, rfl⟩
  unfold walkFrom
  refine traced_yields (Yields.get_bind fun records => ?_)
  have hwalk : store.walkOf (world.withRecords records) under start visitor
      = store.walkOf world under start visitor := rfl
  simp only [hwalk]
  refine (hcalls _).bind ?_
  cases (store.walkOf world under start visitor).remark? with
  | some remark => exact (note_yields _ _ _ world).bind (.pure _ world)
  | none => exact .pure _ world

theorem namesOf_yields (walk : Walk) (world : World) :
    (namesOf walk).Yields world (walk.result.map fun _ => walk.names) world := by
  unfold namesOf
  cases walk.result with
  | ok count => exact .pure _ world
  | error failure => exact .throw _ world

def listed (store : Store) (world : World) (under : String) (limit : Int) :
    Except Failure (List String) :=
  if limit ≤ 0 then .ok []
  else
    let walk := store.walkOf world under "" (Walk.collector limit)
    walk.result.map fun _ => walk.names

theorem list_yields (store : Store) (under : String) (limit : Int) (told : Option String)
    (world : World) :
    (store.list under limit told).Yields world (store.listed world under limit) world := by
  unfold list collectFrom Walk.first?
  apply traced_yields
  by_cases hlimit : limit ≤ 0
  · unfold listed
    rw [if_pos hlimit, if_pos hlimit]
    exact .pure _ world
  · unfold listed
    rw [if_neg hlimit, if_neg hlimit]
    exact (walkFrom_yields store under "" _ world).bind (namesOf_yields _ world)

end Store

end Depot
