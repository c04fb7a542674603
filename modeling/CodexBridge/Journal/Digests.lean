import CodexBridge.Journal.Tables
import CodexBridge.Library.Coding

/-! # Hashing without collisions

An environment whose hash writes the digested text out, so that no two texts share it.
-/

namespace CodexBridge.Journal

open Coding

def Scope.code : Scope → List Char
  | .thread threadId => 't' :: ofString threadId
  | .auth => ['a']
  | .runtime => ['r']

def EnvelopeWrite.code (w : EnvelopeWrite) : List Char :=
  ofString w.relativePath ++ (ofString w.document.operationId ++
    (ofNat w.document.revision ++ ofFields w.document.body))

def EnvelopeEvent.code (e : EnvelopeEvent) : List Char :=
  ofString e.operationKey ++ (ofString e.eventId ++ (e.scope.code ++ (ofString e.eventType ++
    (ofFields e.payload ++ ofString e.timestamp))))

def Digest.code : Digest → List Char
  | .event scope eventType payload timestamp scopeSequence =>
    'e' :: (scope.code ++ (ofString eventType ++ (ofFields payload ++
      (ofOption ofString timestamp ++ ofOption ofNat scopeSequence))))
  | .tombstone kind value => 't' :: (ofString kind ++ ofString value)
  | .operation operationId writes events =>
    'o' :: (ofString operationId ++ (ofList EnvelopeWrite.code writes ++
      ofList (fun e => e.1.code ++ ofOption ofString e.2) events))
  | .identity operationId index => 'i' :: (ofString operationId ++ ofNat index)

end CodexBridge.Journal
