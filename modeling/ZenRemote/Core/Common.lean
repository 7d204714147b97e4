-- SUMMARY: What the client and the server share: the context of a session-scoped request.

/-!
# Common definitions

`SerialRequestContext` writes the three numbers below into the metadata of a
request, and `AsyncSessionServiceCaller::IsSessionContext` reads them back.
-/

namespace ZenRemote

/-- The values under the metadata keys `session`, `serial` and `channel`. -/
structure RequestContext where
  session : Nat
  serial : Nat
  channel : Nat
  deriving DecidableEq, Repr

/-- The three numbers fit in 64 bits. -/
structure RequestContext.Fits (context : RequestContext) : Prop where
  session : context.session < UInt64.size
  serial : context.serial < UInt64.size
  channel : context.channel < UInt64.size

end ZenRemote
