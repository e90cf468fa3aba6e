import ActorSystem.Proofs.Consistency
import ActorSystem.Proofs.Refinement
import ActorSystem.Proofs.Accounting
import ActorSystem.Proofs.Outside
import ActorSystem.Proofs.Wakeups
import ActorSystem.Proofs.Unhindered
import ActorSystem.Proofs.Closing
import ActorSystem.Proofs.Unbatched
import ActorSystem.Proofs.Firing
import ActorSystem.Scenario.Lifetime
import ActorSystem.Proofs.Cancelling
import ActorSystem.Proofs.Sleeping
import ActorSystem.Proofs.Errands
import ActorSystem.Proofs.Isolation
import ActorSystem.Proofs.Pacing
import ActorSystem.Proofs.Strides
import ActorSystem.Proofs.Context
import ActorSystem.Proofs.Callbacks
import ActorSystem.Proofs.Draining
import ActorSystem.Proofs.Fifo
import ActorSystem.Proofs.Crossing
import ActorSystem.Proofs.Exits
import ActorSystem.Proofs.Pools
import ActorSystem.Proofs.Equality
import ActorSystem.Proofs.Words
import ActorSystem.Proofs.Refusals
import ActorSystem.Proofs.Reads
import ActorSystem.Proofs.Chains
import ActorSystem.Proofs.Nodes
import ActorSystem.Proofs.Closing
import ActorSystem.Proofs.Replies
