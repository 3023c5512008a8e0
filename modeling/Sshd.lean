import Sshd.Client.Closing
import Sshd.Client.CommandLine
import Sshd.Client.Relay
import Sshd.Client.FlowControl
import Sshd.Client.HostTrust
import Sshd.Client.Proposal
import Sshd.Client.ReceiveWindow
import Sshd.Client.Verdicts
import Sshd.Keys.Generated
import Sshd.Keys.Migration
import Sshd.Keys.Race
import Sshd.Server.AuthSafety
import Sshd.Server.ChannelLife
import Sshd.Server.Guess
import Sshd.Server.InputDelivery
import Sshd.Server.Isolation
import Sshd.Server.Negotiation
import Sshd.Server.OutputDelivery
import Sshd.Server.Ownership
import Sshd.Server.PasswordAuth
import Sshd.Server.Rekey
import Sshd.Server.Segmentation
import Sshd.Server.SendWindow
import Sshd.Server.Slots
import Sshd.Server.Teardown
import Sshd.Server.Transcript
import Sshd.Server.Window
import Sshd.Conversation
import Sshd.Decoders
import Sshd.HostIdentity
import Sshd.KeyDerivation
import Sshd.Mpint
import Sshd.NameLists
import Sshd.PrefixIntegrity
import Sshd.PublickeyAuth
import Sshd.StreamIntegrity
