import ObjectModel.Proofs.Realm.Assigning
import ObjectModel.Proofs.Realm.Counting
import ObjectModel.Proofs.Realm.Discipline
import ObjectModel.Proofs.Realm.Lenience
import ObjectModel.Proofs.Realm.Picturing
import ObjectModel.Proofs.Realm.Refusal
import ObjectModel.Proofs.Realm.Searching
import ObjectModel.Proofs.Realm.Writing
import ObjectModel.Proofs.Script.Above
import ObjectModel.Proofs.Script.Commuting
import ObjectModel.Proofs.Script.Constructors
import ObjectModel.Proofs.Script.Deleting
import ObjectModel.Proofs.Script.Epoch
import ObjectModel.Proofs.Script.Frozen
import ObjectModel.Proofs.Script.Listing
import ObjectModel.Proofs.Script.Locking
import ObjectModel.Proofs.Script.Order
import ObjectModel.Proofs.Script.Owning
import ObjectModel.Proofs.Script.Redefining
import ObjectModel.Proofs.Script.Regrowing
import ObjectModel.Proofs.Script.RoundTrip
import ObjectModel.Proofs.Script.Splicing
import ObjectModel.Proofs.Script.Strictness
import ObjectModel.Proofs.Script.Subclassing
import ObjectModel.Proofs.Script.Tower
import ObjectModel.Proofs.Value.Key
import ObjectModel.Script.Program
