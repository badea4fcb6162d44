import SignalBroker.Access.Grants
import SignalBroker.Broker.Error

namespace SignalBroker

structure Rights where
  authorized : Bool
  grants : Grants
  ttl : Nat

namespace Rights

def none : Rights := ⟨false, .empty, 0⟩

instance : Inhabited Rights := ⟨none⟩

def ofGrants (grants : Grants) (ttl : Nat) : Rights := ⟨true, grants, ttl⟩

def canRead (r : Rights) (path : String) (isPublic : Bool) : Bool :=
  isPublic || r.grants.canRead path

def canWrite (r : Rights) (path : String) : Bool :=
  r.grants.canWrite path

def denial (r : Rights) (subject : String) : BrokerError :=
  if r.authorized then .forbidden subject else .notAuthorized subject

def checkRead (r : Rights) (path : String) (isPublic : Bool) : Except BrokerError Unit :=
  if r.canRead path isPublic then .ok () else .error (r.denial path)

def checkWrite (r : Rights) (path : String) : Except BrokerError Unit :=
  if r.canWrite path then .ok () else .error (r.denial path)

/-- The rights that a token gives. Entries of the grant that are no patterns are left out. -/
def ofToken (resolver : Resolver) (token : String) : Except BrokerError Rights :=
  if Text.trim token = "" then .error (.authFailed "empty token")
  else
    match resolver.resolve token with
    | .ok grant => .ok (ofGrants (.ofTable grant.permissions) grant.ttl)
    | .error e => .error (.ofResolve e)

end Rights

end SignalBroker
