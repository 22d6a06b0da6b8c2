import LineExchange.Cancel.Run
import LineExchange.Channel.Patient
import LineExchange.Channel.Run
import LineExchange.Main
import LineExchange.Program.Program
import LineExchange.Work.Run
import LineExchange.Proofs.History
import LineExchange.Proofs.Work.Moves
import LineExchange.Proofs.Client.Ending
import LineExchange.Proofs.Client.Moves
import LineExchange.Proofs.Client.Books
import LineExchange.Proofs.Channel.Framing
import LineExchange.Proofs.Client.Cancellation
import LineExchange.Proofs.Client.Completion
import LineExchange.Proofs.Server.Closing
import LineExchange.Proofs.Server.Contention
import LineExchange.Proofs.Server.Lifecycle
import LineExchange.Proofs.Work.Balance
import LineExchange.Proofs.Work.Shutdown
import LineExchange.Proofs.Client.Shutdown
import LineExchange.Proofs.Server.Accounts
import LineExchange.Proofs.Server.Lodging
import LineExchange.Proofs.Text.Encoding
import LineExchange.Proofs.Channel.Transfer
import LineExchange.Proofs.Text.OneLine
import LineExchange.Proofs.Fairness
import LineExchange.Proofs.Call.Link
import LineExchange.Proofs.Call.ClientSide
import LineExchange.Proofs.Call.ServerSide
import LineExchange.Proofs.Call.Course
import LineExchange.Proofs.Call.Delivery
import LineExchange.Proofs.Server.Stopping
import LineExchange.Proofs.Work.Exactness
import LineExchange.Proofs.Server.Accepting
import LineExchange.Proofs.Channel.Agreement
import LineExchange.Proofs.Server.Separation
import LineExchange.Proofs.Server.Answering
import LineExchange.Proofs.Server.Isolation
import LineExchange.Proofs.Text.Decoding
import LineExchange.Proofs.Text.Digits
import LineExchange.Proofs.Text.Words
import LineExchange.Proofs.Request.Grammar
import LineExchange.Proofs.Request.RoundTrip
import LineExchange.Proofs.Client.Sending
import LineExchange.Proofs.Request.AnswerSize
import LineExchange.Proofs.Request.LineByLine
import LineExchange.Proofs.Channel.Switching
import LineExchange.Proofs.Channel.Forgetting
import LineExchange.Proofs.Channel.Limit
import LineExchange.Proofs.Cancel.Attention
import LineExchange.Proofs.Channel.Interruption
import LineExchange.Proofs.Channel.Writing
import LineExchange.Proofs.Client.Dropping
import LineExchange.Proofs.Client.Occupancy
import LineExchange.Proofs.Command.Reading
import LineExchange.Proofs.Command.Deciding
import LineExchange.Proofs.Command.Asking
import LineExchange.Proofs.Work.Waking
import LineExchange.Proofs.Cancel.Watching
import LineExchange.Proofs.Work.Locking
import LineExchange.Proofs.Channel.Endless
