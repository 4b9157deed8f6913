import MerkleBatch.Main
import MerkleBatch.Metrics.Summary
import MerkleBatch.Prover.Cache
import MerkleBatch.Proofs.Batch.Recording
import MerkleBatch.Proofs.Batch.Split
import MerkleBatch.Proofs.Batch.Uniqueness
import MerkleBatch.Proofs.Circuit.Binding
import MerkleBatch.Proofs.Circuit.Uniformity
import MerkleBatch.Proofs.InputHash
import MerkleBatch.Proofs.Service.Accounting
import MerkleBatch.Proofs.Tree.Collision
import MerkleBatch.Proofs.Tree.Storage
import MerkleBatch.Proofs.Tree.Siblings
import MerkleBatch.Proofs.Batch.Safety
import MerkleBatch.Proofs.Batch.Violation
import MerkleBatch.Proofs.Envelope
import MerkleBatch.Proofs.Bits
import MerkleBatch.Proofs.Circuit.Membership
import MerkleBatch.Proofs.Range
