/-!
This module contains the calls that stores make on the clients of cloud providers.
-/

namespace Depot.Cloud

inductive ClientRequest where
  | gcs (project : Option String)
  | s3 (endpoint region : Option String)
deriving DecidableEq, Repr

inductive Call where
  | bucket (name : String)
  /-- Opens an object for writing; `onlyNew` if it must not be there. -/
  | openWrite (key contentType : String) (onlyNew ignoreFlush : Bool)
  | openRead (key : String)
  | commit (key cacheControl : String) (body : ByteArray)
  | getBlob (key : String)
  | deleteBlob (key : String)
  | listBlobs (bucket : String) (lead offset : Option String)
  /-- Uploads an object; `onlyNew` if it must not be there. -/
  | putObject (bucket key contentType : String) (onlyNew : Bool) (body : ByteArray)
  | getObject (bucket key : String)
  | headObject (bucket key : String)
  | deleteObject (bucket key : String)
  | getPaginator (name : String)
  | paginate (bucket lead : String) (after : Option String)
  | page

def Call.name : Call → String
  | bucket _ => "bucket"
  | openWrite _ _ _ _ | openRead _ => "blob.open"
  | commit _ _ _ => "commit"
  | getBlob _ => "get_blob"
  | deleteBlob _ => "blob.delete"
  | listBlobs _ _ _ => "list_blobs"
  | putObject _ _ _ _ _ => "put_object"
  | getObject _ _ => "get_object"
  | headObject _ _ => "head_object"
  | deleteObject _ _ => "delete_object"
  | getPaginator _ => "get_paginator"
  | paginate _ _ _ => "paginate"
  | page => "page"

end Depot.Cloud
